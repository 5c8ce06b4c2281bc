import BDTun.Locking

/-!
# The calls of the driver are atomic

The machine `tunnel` takes every call as one step.  Here the calls of any number
of threads run statement by statement, with their locks: submissions, header
reads, polls, opens and interrupts at any time, and the calls on the data-current
bio and closes one at a time, on a request that is pending (`Orderly`).

* `Agree`: the state of `tunnel` when each call has its effect at one statement,
  and where the threads in the middle of theirs stand.
* `Agree.next`: every statement is nothing to `tunnel`, or the call.
* `calls_atomic`: the calls of a run, in the order of their effects, are a run of
  `tunnel` with the same answers; nobody dereferences a dead address, and when
  all threads are at rest the two states agree.
* `orderly_calls_return`: with buffers that are accessible (`Careful`) the calls
  under way can all be brought to return.
-/

namespace BDTun

open Machine Memory
open Locks (Instr Program Act running)

section
variable [Kernel]

/-- An address with an entry that is not on a list yet, or whose bio has been ended. -/
def Pc.hides : Pc → Option Addr
  | .addLock _ new => some new
  | .addTail _ new => some new
  | .iostat a => some a
  | .unlink a => some a
  | .endUnlock a => some a
  | .free a => some a
  | _ => none

/-- The head of the incoming list, on its way to the pending list. -/
def Pc.takes : Pc → Option Addr
  | .moveLock _ _ _ a _ => some a
  | .moveTail _ _ _ a _ => some a
  | _ => none

/-- The bio has been ended and its entry is still on the pending list. -/
def Pc.ending : Pc → Bool
  | .iostat _ => true
  | .unlink _ => true
  | _ => false

/-- In a set-current request, a call on the data-current bio, or the part of a close that moves
entries. -/
def Pc.sole : Pc → Bool
  | .setLock _ _ _ _ => true
  | .setStore _ _ _ _ => true
  | .setUnlock => true
  | .mmapCheck _ _ _ => true
  | .curLock _ => true
  | .curLoad _ => true
  | .curUnlock _ _ => true
  | .transfer _ _ => true
  | .endLock _ _ _ _ => true
  | .endio _ _ _ _ => true
  | .iostat _ => true
  | .unlink _ => true
  | .endUnlock _ => true
  | .free _ => true
  | .closeLock _ => true
  | .closeLockPending _ => true
  | .splice _ => true
  | .closeUnlockPending => true
  | .closeUnlock => true
  | _ => false

/-- About to work on the data-current bio. -/
def Pc.onCurrent : Pc → Bool
  | .mmapCheck _ _ _ => true
  | .curLock _ => true
  | _ => false

variable {T : Type} [DecidableEq T]

/-- What the clients see to: no two calls that need the cursor or the pending list to stay, and none
on a bio that is not pending. -/
def Orderly (c : Crew T) : Act T Pc → Prop
  | .resume _ pc => (pc.sole = true → ∀ u, (c.pc u).sole = false) ∧
      (pc.onCurrent = true → c.shared.dev.dataCurrentBio ∈ c.shared.dev.pendingBioList)
  | .step _ => True

instance [Fintype T] (c : Crew T) : (a : Act T Pc) → Decidable (Orderly c a)
  | .resume _ _ => inferInstanceAs (Decidable (_ ∧ _))
  | .step _ => isTrue trivial

/-! ## The two states -/

/-- What the two models have the same at all times. -/
structure SameData (s w : World) : Prop where
  incoming : s.dev.incomingBioList = w.dev.incomingBioList
  cursor : s.dev.dataCurrentBio = w.dev.dataCurrentBio
  removing : s.dev.removing = w.dev.removing
  mem : s.mem = w.mem
  jiffies : s.jiffies = w.jiffies
  ended : s.ended = w.ended
  delivered : s.delivered = w.delivered

/-- Where a thread is, and what it has found there. -/
def At (s w : World) : Pc → Prop
  | .addLock bio new => (w.entries new).map BioListEntry.bio = some bio ∧ s.entries new = none ∧
      new ≠ 0 ∧ new < 2 ^ bitsPerLong
  | .addTail bio new => (w.entries new).map BioListEntry.bio = some bio ∧ s.entries new = none ∧
      new ≠ 0 ∧ new < 2 ^ bitsPerLong
  | .moveLock _ _ _ a entry => w.entries a = some entry ∧ ∃ rest, w.dev.incomingBioList = a :: rest
  | .moveTail _ _ _ a entry => w.entries a = some entry ∧ ∃ rest, w.dev.incomingBioList = a :: rest
  | .mmapCheck _ _ _ => w.dev.dataCurrentBio ∈ w.dev.pendingBioList
  | .curLock _ => w.dev.dataCurrentBio ∈ w.dev.pendingBioList
  | .curLoad _ => w.dev.dataCurrentBio ∈ w.dev.pendingBioList
  | .curUnlock _ a => w.dev.dataCurrentBio = a ∧ a ∈ w.dev.pendingBioList
  | .transfer _ a => w.dev.dataCurrentBio = a ∧ a ∈ w.dev.pendingBioList
  | .endLock _ _ _ a => w.dev.dataCurrentBio = a ∧ a ∈ w.dev.pendingBioList
  | .endio _ _ _ a => w.dev.dataCurrentBio = a ∧ a ∈ w.dev.pendingBioList
  | .iostat a => ((w.entries a).isSome ∧ s.entries a = none) ∧ a ∈ w.dev.pendingBioList ∧
      s.dev.pendingBioList = w.dev.pendingBioList.erase a
  | .unlink a => ((w.entries a).isSome ∧ s.entries a = none) ∧ a ∈ w.dev.pendingBioList ∧
      s.dev.pendingBioList = w.dev.pendingBioList.erase a
  | .endUnlock a => (w.entries a).isSome ∧ s.entries a = none
  | .free a => (w.entries a).isSome ∧ s.entries a = none
  | .oops _ => False
  | _ => True

/-- A hidden entry is allocated here and not there. -/
theorem At.hidden {s w : World} {pc : Pc} (h : At s w pc) {a : Addr} (ha : pc.hides = some a) :
    (w.entries a).isSome ∧ s.entries a = none := by
  cases pc with
  | addLock bio new =>
    cases ha
    exact ⟨by rw [← Option.isSome_map (f := BioListEntry.bio), h.1]; rfl, h.2.1⟩
  | addTail bio new =>
    cases ha
    exact ⟨by rw [← Option.isSome_map (f := BioListEntry.bio), h.1]; rfl, h.2.1⟩
  | iostat b => cases ha; exact h.1
  | unlink b => cases ha; exact h.1
  | endUnlock b => cases ha; exact h
  | free b => cases ha; exact h
  | _ => cases ha

/-- An entry that is taken is the first of the incoming list. -/
theorem At.taken {s w : World} {pc : Pc} (h : At s w pc) {a : Addr} (ha : pc.takes = some a) :
    (w.entries a).isSome ∧ a ∈ w.dev.incomingBioList := by
  cases pc with
  | moveLock f valid signal b entry =>
    cases ha
    obtain ⟨he, rest, hl⟩ := h
    exact ⟨by rw [he]; rfl, by rw [hl]; exact List.mem_cons_self⟩
  | moveTail f valid signal b entry =>
    cases ha
    obtain ⟨he, rest, hl⟩ := h
    exact ⟨by rw [he]; rfl, by rw [hl]; exact List.mem_cons_self⟩
  | _ => cases ha

/-- **Frame.**  What a thread has found stays, if others leave alone what it relies on. -/
theorem At.frame {s w s' w' : World} {pc : Pc} (h : At s w pc)
    (hin : .incoming ∈ pc.held → w'.dev.incomingBioList = w.dev.incomingBioList)
    (hend : pc.ending = true → w'.dev.pendingBioList = w.dev.pendingBioList ∧
      s'.dev.pendingBioList = s.dev.pendingBioList)
    (hcur : pc.sole = true → w'.dev.dataCurrentBio = w.dev.dataCurrentBio ∧
      ∀ a ∈ w.dev.pendingBioList, a ∈ w'.dev.pendingBioList)
    (hent : ∀ a, pc.hides = some a ∨ pc.takes = some a → w'.entries a = w.entries a)
    (hs : ∀ a, pc.hides = some a → s'.entries a = none) : At s' w' pc := by
  cases pc with
  | addLock bio new => exact ⟨by rw [hent new (Or.inl rfl)]; exact h.1, hs new rfl, h.2.2⟩
  | addTail bio new => exact ⟨by rw [hent new (Or.inl rfl)]; exact h.1, hs new rfl, h.2.2⟩
  | moveLock f valid signal a entry =>
    obtain ⟨he, rest, hl⟩ := h
    exact ⟨(hent a (Or.inr rfl)).trans he, rest, (hin (by simp [Pc.held])).trans hl⟩
  | moveTail f valid signal a entry =>
    obtain ⟨he, rest, hl⟩ := h
    exact ⟨(hent a (Or.inr rfl)).trans he, rest, (hin (by simp [Pc.held])).trans hl⟩
  | mmapCheck f vma fail =>
    obtain ⟨hc, hp⟩ := hcur rfl
    show w'.dev.dataCurrentBio ∈ w'.dev.pendingBioList
    rw [hc]
    exact hp _ h
  | curLock k =>
    obtain ⟨hc, hp⟩ := hcur rfl
    show w'.dev.dataCurrentBio ∈ w'.dev.pendingBioList
    rw [hc]
    exact hp _ h
  | curLoad k =>
    obtain ⟨hc, hp⟩ := hcur rfl
    show w'.dev.dataCurrentBio ∈ w'.dev.pendingBioList
    rw [hc]
    exact hp _ h
  | curUnlock k a => exact ⟨(hcur rfl).1.trans h.1, (hcur rfl).2 _ h.2⟩
  | transfer x a => exact ⟨(hcur rfl).1.trans h.1, (hcur rfl).2 _ h.2⟩
  | endLock f byte valid a => exact ⟨(hcur rfl).1.trans h.1, (hcur rfl).2 _ h.2⟩
  | endio f byte valid a => exact ⟨(hcur rfl).1.trans h.1, (hcur rfl).2 _ h.2⟩
  | iostat a =>
    obtain ⟨hw, hpend⟩ := hend rfl
    obtain ⟨⟨hsome, -⟩, hmem, herase⟩ := h
    exact ⟨⟨by rw [hent a (Or.inl rfl)]; exact hsome, hs a rfl⟩, by rw [hw]; exact hmem,
      by rw [hpend, hw]; exact herase⟩
  | unlink a =>
    obtain ⟨hw, hpend⟩ := hend rfl
    obtain ⟨⟨hsome, -⟩, hmem, herase⟩ := h
    exact ⟨⟨by rw [hent a (Or.inl rfl)]; exact hsome, hs a rfl⟩, by rw [hw]; exact hmem,
      by rw [hpend, hw]; exact herase⟩
  | endUnlock a => exact ⟨by rw [hent a (Or.inl rfl)]; exact h.1, hs a rfl⟩
  | free a => exact ⟨by rw [hent a (Or.inl rfl)]; exact h.1, hs a rfl⟩
  | oops held => exact h
  | _ => trivial

structure Agree (s : World) (c : Crew T) : Prop where
  data : SameData s c.shared
  quiet : (∀ t, (c.pc t).ending = false) → s.dev.pendingBioList = c.shared.dev.pendingBioList
  bios : ∀ a, (∀ t, (c.pc t).hides ≠ some a) → s.bioAt a = c.shared.bioAt a
  places : ∀ t, At s c.shared (c.pc t)
  distinct : ∀ t u a, (c.pc t).hides = some a → (c.pc u).hides = some a → t = u
  sole : ∀ t u, (c.pc t).sole = true → (c.pc u).sole = true → t = u

variable {s s' w' : World} {c : Crew T} {t : T} {pc' : Pc}

/-- A thread goes on, and the two states change. -/
theorem Agree.move (h : Agree s c) (hdata : SameData s' w')
    (hquiet : pc'.ending = false → (∀ u, u ≠ t → (c.pc u).ending = false) →
      s'.dev.pendingBioList = w'.dev.pendingBioList)
    (hbios : ∀ a, pc'.hides ≠ some a → (∀ u, u ≠ t → (c.pc u).hides ≠ some a) →
      s'.bioAt a = w'.bioAt a)
    (hat : At s' w' pc') (hothers : ∀ u, u ≠ t → At s' w' (c.pc u))
    (hhides : ∀ a, pc'.hides = some a → ∀ u, u ≠ t → (c.pc u).hides ≠ some a)
    (hsole : pc'.sole = true → ∀ u, u ≠ t → (c.pc u).sole = false) :
    Agree s' { c.goto t pc' with shared := w' } := by
  have hself : (c.goto t pc').pc t = pc' := Locks.goto_self c t pc'
  have hother : ∀ u, u ≠ t → (c.goto t pc').pc u = c.pc u := fun u hu => Locks.goto_other c pc' hu
  refine ⟨hdata, fun hall => ?_, fun a hall => ?_, fun u => ?_, fun u v a hu hv => ?_,
    fun u v hu hv => ?_⟩
  · refine hquiet ?_ fun u hu => ?_
    · rw [← hself]
      exact hall t
    · rw [← hother u hu]
      exact hall u
  · refine hbios a ?_ fun u hu => ?_
    · rw [← hself]
      exact hall t
    · rw [← hother u hu]
      exact hall u
  · show At s' w' ((c.goto t pc').pc u)
    by_cases hu : u = t
    · subst hu
      rw [hself]
      exact hat
    · rw [hother u hu]
      exact hothers u hu
  · have hu : ((c.goto t pc').pc u).hides = some a := hu
    have hv : ((c.goto t pc').pc v).hides = some a := hv
    by_cases hut : u = t
    · by_cases hvt : v = t
      · rw [hut, hvt]
      · rw [hut, hself] at hu
        rw [hother v hvt] at hv
        exact absurd hv (hhides a hu v hvt)
    · by_cases hvt : v = t
      · rw [hvt, hself] at hv
        rw [hother u hut] at hu
        exact absurd hu (hhides a hv u hut)
      · rw [hother u hut] at hu
        rw [hother v hvt] at hv
        exact h.distinct u v a hu hv
  · have hu : ((c.goto t pc').pc u).sole = true := hu
    have hv : ((c.goto t pc').pc v).sole = true := hv
    by_cases hut : u = t
    · by_cases hvt : v = t
      · rw [hut, hvt]
      · rw [hut, hself] at hu
        rw [hother v hvt, hsole hu v hvt] at hv
        cases hv
    · by_cases hvt : v = t
      · rw [hvt, hself] at hv
        rw [hother u hut, hsole hv u hut] at hu
        cases hu
      · rw [hother u hut] at hu
        rw [hother v hvt] at hv
        exact h.sole u v hu hv

/-- The lists, the cursor and the entries are as they were. -/
structure Linked (s s' : World) : Prop where
  incoming : s'.dev.incomingBioList = s.dev.incomingBioList
  pending : s'.dev.pendingBioList = s.dev.pendingBioList
  cursor : s'.dev.dataCurrentBio = s.dev.dataCurrentBio
  entries : s'.entries = s.entries

theorem Linked.at {s s' w w' : World} (hs : Linked s s') (hw : Linked w w') {pc : Pc}
    (h : At s w pc) : At s' w' pc := by
  refine h.frame (fun _ => hw.incoming) (fun _ => ⟨hw.pending, hs.pending⟩) (fun _ => ⟨hw.cursor, ?_⟩)
    (fun a _ => by rw [hw.entries]) fun a ha => ?_
  · intro a ha
    rw [hw.pending]
    exact ha
  · rw [hs.entries]
    exact (h.hidden ha).2

theorem Linked.bioAt {s s' : World} (h : Linked s s') (a : Addr) : s'.bioAt a = s.bioAt a := by
  rw [World.bioAt, World.bioAt, h.entries]

/-- A thread goes on to a place of the same standing, and the lists and entries stay. -/
theorem Agree.along (h : Agree s c) (hdata : SameData s' w') (hs : Linked s s')
    (hw : Linked c.shared w') (hhides : pc'.hides = (c.pc t).hides)
    (hending : pc'.ending = (c.pc t).ending) (hsole : pc'.sole = true → (c.pc t).sole = true)
    (hat : At s c.shared pc') : Agree s' { c.goto t pc' with shared := w' } := by
  refine h.move hdata (fun hpc hall => ?_) (fun a hpc hall => ?_) (hs.at hw hat)
    (fun u _ => hs.at hw (h.places u)) (fun a ha u hu hua => ?_) fun hpc u hu => ?_
  · rw [hs.pending, hw.pending]
    refine h.quiet fun u => ?_
    by_cases hu : u = t
    · rw [hu, ← hending]
      exact hpc
    · exact hall u hu
  · rw [hs.bioAt, hw.bioAt]
    refine h.bios a fun u => ?_
    by_cases hu : u = t
    · rw [hu, ← hhides]
      exact hpc
    · exact hall u hu
  · rw [hhides] at ha
    exact hu (h.distinct u t a hua ha)
  · by_contra hother
    exact hu (h.sole u t (by simpa using hother) (hsole hpc))

/-- A statement that only the thread itself notices. -/
theorem Agree.walk (h : Agree s c) (hhides : pc'.hides = (c.pc t).hides)
    (hending : pc'.ending = (c.pc t).ending) (hsole : pc'.sole = true → (c.pc t).sole = true)
    (hat : At s c.shared pc') : Agree s (c.goto t pc') :=
  h.along h.data ⟨rfl, rfl, rfl, rfl⟩ ⟨rfl, rfl, rfl, rfl⟩ hhides hending hsole hat

omit [DecidableEq T] in
/-- Who has which lock is nothing to `tunnel`. -/
theorem Agree.owner (h : Agree s c) (owner : Lock → Option T) :
    Agree s { c with owner := owner } :=
  ⟨h.data, h.quiet, h.bios, h.places, h.distinct, h.sole⟩

/-! ## What a statement is to `tunnel` -/

/-- The call that takes effect is a step of `tunnel` with that answer. -/
inductive Took (s : World) : Option (Call × Ret) → World → Prop
  | nothing : Took s none s
  | call (c : Call) (he : tunnel.enabled s c) :
      Took s (some (c, (tunnelNext s c).2)) (tunnelNext s c).1

theorem Took.of_next {s s' : World} {call : Call} {r : Ret} (hk : KmallocOk s call)
    (hnext : tunnelNext s call = (s', r)) (hr : r ≠ .oops) : Took s (some (call, r)) s' := by
  have htook := Took.call call ⟨hk, by rw [hnext]; exact hr⟩
  rwa [hnext] at htook

/-- What comes of a statement of `t` that is a step on the shared state. -/
def Goes (s : World) (c : Crew T) (t : T) (step : World → Effected) : Prop :=
  ∃ s', Took s (step c.shared).2.2 s' ∧
    Agree s' { c.goto t (step c.shared).2.1 with shared := (step c.shared).1 }

theorem ending_held {pc : Pc} (h : pc.ending = true) : .pending ∈ pc.held := by
  cases pc <;> cases h <;> simp [Pc.held]

theorem ending_sole {pc : Pc} (h : pc.ending = true) : pc.sole = true := by
  cases pc <;> cases h <;> rfl

omit [DecidableEq T] in
/-- While one thread has the pending list's lock, no other is ending a bio. -/
theorem ending_of_pending (hown : Locks.Owned driver c) (ht : .pending ∈ (c.pc t).held) {u : T}
    (hu : u ≠ t) : (c.pc u).ending = false := by
  by_contra hend
  exact hu (hown.exclusive (ending_held (by simpa using hend)) ht)

omit [DecidableEq T] in
theorem not_held (hown : Locks.Owned driver c) {l : Lock} (ht : l ∈ (c.pc t).held) {u : T}
    (hu : u ≠ t) : l ∉ (c.pc u).held := fun hl => hu (hown.exclusive hl ht)

omit [DecidableEq T] in
theorem Agree.not_sole (h : Agree s c) (ht : (c.pc t).sole = true) {u : T} (hu : u ≠ t) :
    (c.pc u).sole = false := by
  by_contra hother
  exact hu (h.sole u t (by simpa using hother) ht)

/-- While one thread is on its own with the cursor, and not ending a bio, the pending lists agree. -/
theorem Agree.pending (h : Agree s c) (ht : (c.pc t).sole = true) (hnot : (c.pc t).ending = false) :
    s.dev.pendingBioList = c.shared.dev.pendingBioList := by
  refine h.quiet fun u => ?_
  by_cases hu : u = t
  · rw [hu]
    exact hnot
  · by_contra hend
    have hsole := h.not_sole ht hu
    rw [ending_sole (by simpa using hend)] at hsole
    cases hsole

omit [DecidableEq T] in
/-- What `tunnel` has allocated is allocated, for the same bio. -/
theorem Agree.entry (h : Agree s c) {a : Addr} (ha : (s.entries a).isSome) :
    ∃ es entry, s.entries a = some es ∧ c.shared.entries a = some entry ∧ entry.bio = es.bio := by
  obtain ⟨es, hes⟩ := Option.isSome_iff_exists.mp ha
  have hshown : ∀ u, (c.pc u).hides ≠ some a := by
    intro u hu
    rw [((h.places u).hidden hu).2] at hes
    cases hes
  have hbio := h.bios a hshown
  rw [World.bioAt, World.bioAt, hes] at hbio
  cases he : c.shared.entries a with
  | none => rw [he] at hbio; cases hbio
  | some entry =>
    rw [he] at hbio
    exact ⟨es, entry, hes, rfl, (Option.some.inj hbio).symm⟩

theorem header_bio (a : Addr) {e e' : BioListEntry} (h : e.bio = e'.bio) : header a e = header a e' := by
  simp only [header, h]

/-! ### Submission -/

theorem Agree.kmalloc (h : Agree s c) {bio : Bio} {new : Addr} (hpc : c.pc t = .kmalloc bio new) :
    Goes s c t (kmallocStep bio new) := by
  rcases kmallocStep_cases bio new c.shared with ⟨⟨hnone, hnull, hlt⟩, hstep⟩ | hstep
  · have hshown : ∀ u, (c.pc u).hides ≠ some new := by
      intro u hu
      have hsome := ((h.places u).hidden hu).1
      rw [hnone] at hsome
      cases hsome
    have hs : s.entries new = none := by
      have hbio := h.bios new hshown
      rw [World.bioAt, World.bioAt, hnone] at hbio
      exact Option.map_eq_none_iff.mp hbio
    rw [Goes, hstep]
    refine ⟨s, .nothing, h.move ?_ ?_ ?_ ?_ ?_ ?_ ?_⟩
    · exact ⟨h.data.incoming, h.data.cursor, h.data.removing, h.data.mem, h.data.jiffies, h.data.ended,
        h.data.delivered⟩
    · intro _ hall
      refine h.quiet fun u => ?_
      by_cases hu : u = t
      · rw [hu, hpc]
        rfl
      · exact hall u hu
    · intro a hne hall
      have hanew : a ≠ new := fun heq => hne (by rw [heq]; rfl)
      have hother : (c.shared.fill bio new).bioAt a = c.shared.bioAt a := by
        simp [World.bioAt, hanew]
      rw [hother]
      refine h.bios a fun u => ?_
      by_cases hu : u = t
      · rw [hu, hpc]
        simp [Pc.hides]
      · exact hall u hu
    · exact ⟨by simp, hs, hnull, hlt⟩
    · intro u _
      have hat := h.places u
      refine hat.frame (fun _ => rfl) (fun _ => ⟨rfl, rfl⟩) (fun _ => ⟨rfl, fun _ ha => ha⟩) ?_
        fun a ha => (hat.hidden ha).2
      intro a ha
      have hanew : a ≠ new := by
        rintro rfl
        rcases ha with hh | htk
        · exact hshown u hh
        · have hsome := (hat.taken htk).1
          rw [hnone] at hsome
          cases hsome
      simp [hanew]
    · intro a ha u _ hu
      cases ha
      exact hshown u hu
    · simp [Pc.sole]
  · rw [Goes, hstep]
    refine ⟨s.bioEndio bio (-eio), .of_next trivial rfl (by simp), ?_⟩
    refine h.along ?_ ⟨rfl, rfl, rfl, rfl⟩ ⟨rfl, rfl, rfl, rfl⟩ (by rw [hpc]; rfl) (by rw [hpc]; rfl)
      (by simp [Pc.sole]) trivial
    obtain ⟨hin, hcur, hrem, hmem, hj, hended, hdel⟩ := h.data
    exact ⟨hin, hcur, hrem, hmem, hj, by simp [hended], hdel⟩

theorem Agree.addTail (h : Agree s c) (hown : Locks.Owned driver c) {bio : Bio} {new : Addr}
    (hpc : c.pc t = .addTail bio new) :
    Goes s c t fun w =>
      (w.listAddTail new, .addUnlock bio, some (.submit bio (some new), .ret 0 .nothing)) := by
  have hat := h.places t
  rw [hpc] at hat
  obtain ⟨hbio, hnone, hnull, hlt⟩ := hat
  have hlock : .incoming ∈ (c.pc t).held := by rw [hpc]; simp [Pc.held]
  have hmine : ∀ u, u ≠ t → (c.pc u).hides ≠ some new :=
    fun u hu hua => hu (h.distinct u t new hua (by rw [hpc]; rfl))
  refine ⟨(s.publish bio new).account bio (bioDataDir bio),
    .of_next ⟨hnone, hnull, hlt⟩ rfl (by simp), h.move ?_ ?_ ?_ trivial ?_
    (by simp [Pc.hides]) (by simp [Pc.sole])⟩
  · obtain ⟨hin, hcur, hrem, hmem, hj, hended, hdel⟩ := h.data
    exact ⟨by simp [hin], hcur, hrem, hmem, hj, hended, hdel⟩
  · intro _ hall
    refine h.quiet fun u => ?_
    by_cases hu : u = t
    · rw [hu, hpc]
      rfl
    · exact hall u hu
  · intro a _ hall
    by_cases ha : a = new
    · subst ha
      show ((s.publish bio a).entries a).map _ = (c.shared.entries a).map _
      rw [hbio]
      simp
    · have hother : ((s.publish bio new).account bio (bioDataDir bio)).bioAt a = s.bioAt a := by
        simp [World.bioAt, ha]
      rw [hother]
      refine h.bios a fun u => ?_
      by_cases hu : u = t
      · rw [hu, hpc]
        rintro ⟨⟩
        exact ha rfl
      · exact hall u hu
  · intro u hu
    have hat := h.places u
    refine hat.frame (fun hin => absurd hin (not_held hown hlock hu)) (fun _ => ⟨rfl, rfl⟩)
      (fun _ => ⟨rfl, fun _ ha => ha⟩) (fun _ _ => rfl) fun a ha => ?_
    have hne : a ≠ new := fun heq => hmine u hu (heq ▸ ha)
    simpa [hne] using (hat.hidden ha).2

/-! ### Header reads -/

theorem Agree.headCheck (h : Agree s c) (hwf : s.Wf) {f : FileId} {valid : Nat} {signal : Bool}
    (hpc : c.pc t = .headCheck f valid signal) : Goes s c t (headCheckStep f valid signal) := by
  rcases headCheckStep_cases f valid signal c.shared with
    ⟨hl, hstep⟩ | ⟨-, hstep⟩ | ⟨a, rest, hl, ⟨he, hstep⟩ | ⟨entry, he, hstep⟩⟩
  · rw [Goes, hstep]
    have hnext : tunnelNext s (.read f bdtunTxreqHeaderSize valid signal) =
        (s, if signal then .ret (-eintr) .nothing else .sleep) := by
      show bdtunchRead s bdtunTxreqHeaderSize valid signal = _
      rw [bdtunchRead, if_pos rfl, World.readHeader, h.data.incoming, hl]
    refine ⟨s, .of_next trivial hnext ?_,
      h.walk (by rw [hpc]; rfl) (by rw [hpc]; rfl) (by simp [Pc.sole]) trivial⟩
    cases signal <;> simp
  · rw [Goes, hstep]
    exact ⟨s, .nothing,
      h.walk (by rw [hpc]; rfl) (by rw [hpc]; rfl) (by simp [Pc.sole]) trivial⟩
  · have hlive : (s.entries a).isSome :=
      (hwf.live a).mpr (List.mem_append_left _ (by rw [h.data.incoming, hl]; exact List.mem_cons_self))
    obtain ⟨-, entry, -, hentry, -⟩ := h.entry hlive
    rw [he] at hentry
    cases hentry
  · rw [Goes, hstep]
    exact ⟨s, .nothing,
      h.walk (by rw [hpc]; rfl) (by rw [hpc]; rfl) (by simp [Pc.sole]) ⟨he, rest, hl⟩⟩

theorem Agree.moveTail (h : Agree s c) (hwf : s.Wf) (hown : Locks.Owned driver c) {f : FileId}
    {valid : Nat} {signal : Bool} {a : Addr} {entry : BioListEntry}
    (hpc : c.pc t = .moveTail f valid signal a entry) :
    Goes s c t (moveTailStep f valid signal a entry) := by
  have hat := h.places t
  rw [hpc] at hat
  obtain ⟨he, rest, hl⟩ := hat
  have hon : c.shared.OnList a :=
    ⟨by rw [he]; rfl, List.mem_append_left _ (by rw [hl]; exact List.mem_cons_self)⟩
  have hstep : moveTailStep f valid signal a entry c.shared =
      (c.shared.listMoveTail a entry, .moveUnlock, some (.read f bdtunTxreqHeaderSize valid signal,
        .ret bdtunTxreqHeaderSize (.header (header a entry)))) := if_pos hon
  rw [Goes, hstep]
  have hlock : .incoming ∈ (c.pc t).held := by rw [hpc]; simp [Pc.held]
  have hlock' : .pending ∈ (c.pc t).held := by rw [hpc]; simp [Pc.held]
  have hquiet : ∀ u, (c.pc u).ending = false := by
    intro u
    by_cases hu : u = t
    · rw [hu, hpc]
      rfl
    · exact ending_of_pending hown hlock' hu
  have hpend := h.quiet hquiet
  have hsl : s.dev.incomingBioList = a :: rest := h.data.incoming.trans hl
  have hlive : (s.entries a).isSome :=
    (hwf.live a).mpr (List.mem_append_left _ (by rw [hsl]; exact List.mem_cons_self))
  obtain ⟨es, entry', hes, he', hbio⟩ := h.entry hlive
  obtain rfl : entry = entry' := Option.some.inj (he.symm.trans he')
  have hnot : a ∉ c.shared.dev.pendingBioList := by
    rw [← hpend]
    intro hin
    exact hwf.not_incoming hin (by rw [hsl]; exact List.mem_cons_self)
  have hmoved : c.shared.dev.pendingBioList.erase a = c.shared.dev.pendingBioList :=
    List.erase_of_not_mem hnot
  have hnext : tunnelNext s (.read f bdtunTxreqHeaderSize valid signal) =
      (s.deliver a rest es, .ret bdtunTxreqHeaderSize (.header (header a entry))) := by
    show bdtunchRead s bdtunTxreqHeaderSize valid signal = _
    rw [bdtunchRead, if_pos rfl, World.readHeader, header_bio a hbio]
    simp only [hsl, hes]
  refine ⟨s.deliver a rest es, .of_next trivial hnext (by simp), h.move ?_ ?_ ?_ trivial ?_
    (by simp [Pc.hides]) (by simp [Pc.sole])⟩
  · obtain ⟨hin, hcur, hrem, hmem, hj, hended, hdel⟩ := h.data
    refine ⟨?_, hcur, hrem, hmem, hj, hended, ?_⟩
    · show rest = c.shared.dev.incomingBioList.erase a
      rw [hl, List.erase_cons_head]
    · show s.delivered ++ [es.bio] = c.shared.delivered ++ [entry.bio]
      rw [hdel, hbio]
  · intro _ _
    show s.dev.pendingBioList ++ [a] = c.shared.dev.pendingBioList.erase a ++ [a]
    rw [hmoved, hpend]
  · intro b _ hall
    refine h.bios b fun u => ?_
    by_cases hu : u = t
    · rw [hu, hpc]
      simp [Pc.hides]
    · exact hall u hu
  · intro u hu
    have hat := h.places u
    refine hat.frame (fun hin => absurd hin (not_held hown hlock hu)) (fun hend => ?_)
      (fun _ => ⟨rfl, fun b hb => ?_⟩) (fun _ _ => rfl) fun b hb => (hat.hidden hb).2
    · rw [hquiet u] at hend
      cases hend
    · show b ∈ c.shared.dev.pendingBioList.erase a ++ [a]
      rw [hmoved]
      exact List.mem_append_left _ hb

/-! ### Calls on the cursor and on the data-current bio -/

theorem Agree.setStore (h : Agree s c) {f : FileId} {buf : List UInt8} {valid : Nat}
    {hlen : buf.length = sizeofLong} (hpc : c.pc t = .setStore f buf valid hlen) :
    Goes s c t (setStoreStep f buf valid) := by
  have hsole : (c.pc t).sole = true := by rw [hpc]; rfl
  rcases setStoreStep_cases f buf valid c.shared with ⟨-, hstep⟩ | hstep <;> rw [Goes, hstep]
  · exact ⟨s, .nothing,
      h.walk (by rw [hpc]; rfl) (by rw [hpc]; rfl) (by simp [Pc.sole]) trivial⟩
  refine ⟨s.setCurrent (wordOf buf), .of_next trivial (bdtunchWrite_set s buf valid hlen) (by simp),
    h.move ?_ ?_ ?_ trivial ?_ (by simp [Pc.hides]) fun _ u hu => h.not_sole hsole hu⟩
  · obtain ⟨hin, -, hrem, hmem, hj, hended, hdel⟩ := h.data
    exact ⟨hin, rfl, hrem, hmem, hj, hended, hdel⟩
  · intro _ _
    exact h.pending hsole (by rw [hpc]; rfl)
  · intro a _ hall
    refine h.bios a fun u => ?_
    by_cases hu : u = t
    · rw [hu, hpc]
      simp [Pc.hides]
    · exact hall u hu
  · intro u hu
    have hat := h.places u
    refine hat.frame (fun _ => rfl) (fun _ => ⟨rfl, rfl⟩) (fun husole => ?_) (fun _ _ => rfl)
      fun a ha => (hat.hidden ha).2
    rw [h.not_sole hsole hu] at husole
    cases husole

theorem Agree.mmapCheck (h : Agree s c) {f : FileId} {vma : Vma} {fail : Option Nat}
    (hpc : c.pc t = .mmapCheck f vma fail) : Goes s c t (mmapCheckStep f vma fail) := by
  have hat := h.places t
  rw [hpc] at hat
  rcases mmapCheckStep_cases f vma fail c.shared with ⟨hshared, hstep⟩ | ⟨hshared, hstep⟩
  · rw [Goes, hstep]
    exact ⟨s, .nothing, h.walk (by rw [hpc]; rfl) (by rw [hpc]; rfl) (fun _ => by rw [hpc]; rfl) hat⟩
  · rw [Goes, hstep]
    have hnext : tunnelNext s (.mmap f vma fail) = (s, .ret (-einval) .nothing) := by
      show bdtunchMmap s vma fail = _
      simp [bdtunchMmap, vma_offset_aligned, hshared]
    exact ⟨s, .of_next trivial hnext (by simp),
      h.walk (by rw [hpc]; rfl) (by rw [hpc]; rfl) (by simp [Pc.sole]) trivial⟩

/-- The data-current entry of a thread that has loaded it. -/
theorem Agree.current (h : Agree s c) (hwf : s.Wf) (hsole : (c.pc t).sole = true)
    (hnot : (c.pc t).ending = false) {a : Addr} (hcur : c.shared.dev.dataCurrentBio = a)
    (hmem : a ∈ c.shared.dev.pendingBioList) :
    a = s.dev.dataCurrentBio ∧ a ∈ s.dev.pendingBioList ∧
      ∃ es entry, s.entries a = some es ∧ c.shared.entries a = some entry ∧ entry.bio = es.bio := by
  have hpend : a ∈ s.dev.pendingBioList := by
    rw [h.pending hsole hnot]
    exact hmem
  exact ⟨hcur.symm.trans h.data.cursor.symm, hpend,
    h.entry ((hwf.live a).mpr (List.mem_append_right _ hpend))⟩

/-- A payload call depends on the bio and the pages only, and changes pages only. -/
theorem body_same (x : PayloadCall) {s w : World} {a : Addr} {es entry : BioListEntry}
    (hs : s.entries a = some es) (hw : w.entries a = some entry) (hbio : entry.bio = es.bio)
    (hmem : s.mem = w.mem) :
    ∃ mem r, x.body w a = ({ w with mem := mem }, r) ∧ x.body s a = ({ s with mem := mem }, r) ∧
      r ≠ .oops := by
  cases x with
  | read f count valid signal hcount =>
    simp only [PayloadCall.body, World.readPayload, hs, hw, hbio, hmem]
    split
    · exact ⟨w.mem, _, rfl, by rw [← hmem], by simp⟩
    · exact ⟨w.mem, _, rfl, by rw [← hmem], by simp⟩
  | write f buf valid hlen hone =>
    simp only [PayloadCall.body, World.writePayload, hs, hw, hbio, hmem]
    split
    · exact ⟨_, _, rfl, rfl, by simp⟩
    · exact ⟨w.mem, _, rfl, by rw [← hmem], by simp⟩
  | mmap f vma fail hshared =>
    simp only [PayloadCall.body, World.mapEntry, hs, hw, hbio]
    split
    · exact ⟨w.mem, _, rfl, by rw [← hmem], by simp⟩
    · split
      · exact ⟨w.mem, _, rfl, by rw [← hmem], by simp⟩
      · exact ⟨w.mem, _, rfl, by rw [← hmem], by simp⟩

theorem payloadCall_next (x : PayloadCall) (s : World) :
    tunnelNext s x.call = x.body s s.dev.dataCurrentBio := by
  cases x with
  | read f count valid signal hcount =>
    show bdtunchRead s count valid signal = _
    rw [bdtunchRead, if_neg hcount]
    rfl
  | write f buf valid hlen hone => exact bdtunchWrite_payload s buf valid hlen hone
  | mmap f vma fail hshared =>
    show bdtunchMmap s vma fail = _
    simp [bdtunchMmap, vma_offset_aligned, hshared, PayloadCall.body]

theorem Agree.transfer (h : Agree s c) (hwf : s.Wf) {x : PayloadCall} {a : Addr}
    (hpc : c.pc t = .transfer x a) : Goes s c t (transferStep x a) := by
  have hat := h.places t
  rw [hpc] at hat
  obtain ⟨hcur, -, es, entry, hes, he, hbio⟩ :=
    h.current hwf (by rw [hpc]; rfl) (by rw [hpc]; rfl) hat.1 hat.2
  obtain ⟨mem, r, hbody, hsame, hr⟩ := body_same x hes he hbio h.data.mem
  have hstep : transferStep x a c.shared =
      ({ c.shared with mem := mem }, .idle, some (x.call, r)) := by
    unfold transferStep
    simp only [he, hbody]
  have hnext : tunnelNext s x.call = ({ s with mem := mem }, r) := by
    rw [payloadCall_next, ← hcur, hsame]
  have hk : KmallocOk s x.call := by cases x <;> trivial
  rw [Goes, hstep]
  refine ⟨{ s with mem := mem }, .of_next hk hnext hr, ?_⟩
  refine h.along ?_ ⟨rfl, rfl, rfl, rfl⟩ ⟨rfl, rfl, rfl, rfl⟩ (by rw [hpc]; rfl) (by rw [hpc]; rfl)
    (by simp [Pc.sole]) trivial
  obtain ⟨hin, hcur, hrem, -, hj, hended, hdel⟩ := h.data
  exact ⟨hin, hcur, hrem, rfl, hj, hended, hdel⟩

/-! ### Completion: the call is done where the bio is ended -/

theorem Agree.endio (h : Agree s c) (hwf : s.Wf) {f : FileId} {byte : UInt8} {valid : Nat} {a : Addr}
    (hpc : c.pc t = .endio f byte valid a) : Goes s c t (endioStep f byte valid a) := by
  have hsole : (c.pc t).sole = true := by rw [hpc]; rfl
  have hnot : (c.pc t).ending = false := by rw [hpc]; rfl
  have hat := h.places t
  rw [hpc] at hat
  obtain ⟨hcur, hpend, es, entry, hes, he, hbio⟩ := h.current hwf hsole hnot hat.1 hat.2
  have hpending := h.pending hsole hnot
  have hincoming : s.dev.incomingBioList.erase a = s.dev.incomingBioList :=
    List.erase_of_not_mem (hwf.not_incoming hpend)
  by_cases hvalid : ¬ 1 ≤ valid
  · have hfault : endioStep f byte valid a c.shared = (c.shared, .fault {.pending}, none) :=
      if_neg hvalid
    rw [Goes, hfault]
    exact ⟨s, .nothing,
      h.walk (by rw [hpc]; rfl) (by rw [hpc]; rfl) (by simp [Pc.sole]) trivial⟩
  have hstep : endioStep f byte valid a c.shared =
      (c.shared.bioEndio entry.bio (if byte ≠ 0 then -eio else 0), .iostat a,
        some (.write f [byte] valid, .ret 1 .nothing)) := by
    unfold endioStep
    simp only [if_pos (not_not.mp hvalid), he]
  have hnext : tunnelNext s (.write f [byte] valid) =
      (s.finish a es (if byte ≠ 0 then -eio else 0), .ret 1 .nothing) := by
    show bdtunchWrite s [byte] valid = _
    rw [bdtunchWrite_byte, ← hcur, World.complete]
    simp only [hes]
  rw [Goes, hstep]
  refine ⟨s.finish a es (if byte ≠ 0 then -eio else 0), .of_next trivial hnext (by simp),
    h.move ?_ (by simp [Pc.ending]) ?_ ?_ ?_ ?_ fun _ u hu => h.not_sole hsole hu⟩
  · obtain ⟨hin, hcur, hrem, hmem, hj, hended, hdel⟩ := h.data
    refine ⟨?_, hcur, hrem, hmem, hj, ?_, hdel⟩
    · exact hincoming.trans hin
    · show s.ended ++ [(es.bio, _)] = c.shared.ended ++ [(entry.bio, _)]
      rw [hended, hbio]
  · intro b hne hall
    have hba : b ≠ a := fun heq => hne (by rw [heq]; rfl)
    have hother : (s.finish a es (if byte ≠ 0 then -eio else 0)).bioAt b = s.bioAt b := by
      simp [World.bioAt, World.finish, hba]
    rw [hother]
    refine h.bios b fun u => ?_
    by_cases hu : u = t
    · rw [hu, hpc]
      simp [Pc.hides]
    · exact hall u hu
  · refine ⟨⟨by rw [World.bioEndio_entries, he]; rfl, by simp [World.finish]⟩, hat.2, ?_⟩
    show s.dev.pendingBioList.erase a = c.shared.dev.pendingBioList.erase a
    rw [hpending]
  · intro u hu
    have hat := h.places u
    refine hat.frame (fun _ => rfl) (fun hend => ?_) (fun _ => ⟨rfl, fun _ hb => hb⟩)
      (fun _ _ => rfl) fun b hb => ?_
    · have hother := h.not_sole hsole hu
      rw [ending_sole hend] at hother
      cases hother
    · have hbnone := (hat.hidden hb).2
      by_cases hba : b = a
      · subst hba
        simp [World.finish]
      · simpa [World.finish, hba] using hbnone
  · intro b hb u _ hub
    cases hb
    rw [((h.places u).hidden hub).2] at hes
    cases hes

theorem Agree.iostat (h : Agree s c) {a : Addr} (hpc : c.pc t = .iostat a) :
    Goes s c t (iostatStep a) := by
  have hat := h.places t
  rw [hpc] at hat
  obtain ⟨entry, he⟩ := Option.isSome_iff_exists.mp hat.1.1
  have hstep : iostatStep a c.shared = (c.shared.updateIostat entry, .unlink a, none) := by
    unfold iostatStep
    simp only [he]
  rw [Goes, hstep]
  refine ⟨s, .nothing, ?_⟩
  refine h.along ?_ ⟨rfl, rfl, rfl, rfl⟩ ⟨rfl, rfl, rfl, rfl⟩ (by rw [hpc]; rfl) (by rw [hpc]; rfl)
    (fun _ => by rw [hpc]; rfl) hat
  obtain ⟨hin, hcur, hrem, hmem, hj, hended, hdel⟩ := h.data
  exact ⟨hin, hcur, hrem, hmem, hj, hended, hdel⟩

omit [DecidableEq T] in
/-- What has been ended is not on the incoming list. -/
theorem Agree.hidden_incoming (h : Agree s c) (hwf : s.Wf) {a : Addr}
    (ha : (c.pc t).hides = some a) : a ∉ c.shared.dev.incomingBioList := by
  rw [← h.data.incoming]
  intro hin
  have hlive := (hwf.live a).mpr (List.mem_append_left _ hin)
  rw [((h.places t).hidden ha).2] at hlive
  cases hlive

theorem Agree.unlink (h : Agree s c) (hwf : s.Wf) {a : Addr} (hpc : c.pc t = .unlink a) :
    Goes s c t (unlinkStep a) := by
  have hsole : (c.pc t).sole = true := by rw [hpc]; rfl
  have hhides : (c.pc t).hides = some a := by rw [hpc]; rfl
  have hat := h.places t
  rw [hpc] at hat
  obtain ⟨⟨he, hnone⟩, hmem, hpending⟩ := hat
  have hstep : unlinkStep a c.shared = (c.shared.listDel a, .endUnlock a, none) :=
    if_pos ⟨he, List.mem_append_right _ hmem⟩
  rw [Goes, hstep]
  have hincoming : c.shared.dev.incomingBioList.erase a = c.shared.dev.incomingBioList :=
    List.erase_of_not_mem (h.hidden_incoming hwf hhides)
  refine ⟨s, .nothing, h.move ?_ ?_ ?_ ⟨he, hnone⟩ ?_ ?_
    fun _ u hu => h.not_sole hsole hu⟩
  · obtain ⟨hin, hcur, hrem, hmem, hj, hended, hdel⟩ := h.data
    exact ⟨hin.trans hincoming.symm, hcur, hrem, hmem, hj, hended, hdel⟩
  · intro _ _
    exact hpending
  · intro b hne hall
    refine h.bios b fun u => ?_
    by_cases hu : u = t
    · rw [hu, hhides]
      exact hne
    · exact hall u hu
  · intro u hu
    have hat := h.places u
    refine hat.frame (fun _ => hincoming) (fun hend => ?_) (fun husole => ?_) (fun _ _ => rfl)
      fun b hb => (hat.hidden hb).2
    · have hother := h.not_sole hsole hu
      rw [ending_sole hend] at hother
      cases hother
    · rw [h.not_sole hsole hu] at husole
      cases husole
  · intro b hb u hu hub
    exact hu (h.distinct u t b hub (hhides.trans hb))

theorem Agree.free (h : Agree s c) (hwf : s.Wf) {a : Addr} (hpc : c.pc t = .free a) :
    Goes s c t (freeStep a) := by
  have hhides : (c.pc t).hides = some a := by rw [hpc]; rfl
  have hsole : (c.pc t).sole = true := by rw [hpc]; rfl
  obtain ⟨hsome, hnone⟩ := (h.places t).hidden hhides
  obtain ⟨entry, he⟩ := Option.isSome_iff_exists.mp hsome
  have hstep : freeStep a c.shared = (c.shared.kfree a, .idle, none) := by
    unfold freeStep
    simp only [he]
  rw [Goes, hstep]
  refine ⟨s, .nothing, h.move ?_ ?_ ?_ trivial ?_
    (by simp [Pc.hides]) (by simp [Pc.sole])⟩
  · obtain ⟨hin, hcur, hrem, hmem, hj, hended, hdel⟩ := h.data
    exact ⟨hin, hcur, hrem, hmem, hj, hended, hdel⟩
  · intro _ _
    exact h.pending hsole (by rw [hpc]; rfl)
  · intro b _ hall
    by_cases hba : b = a
    · subst hba
      simp [World.bioAt, hnone]
    · have hother : (c.shared.kfree a).bioAt b = c.shared.bioAt b := by
        simp [World.bioAt, hba]
      rw [hother]
      refine h.bios b fun u => ?_
      by_cases hu : u = t
      · rw [hu, hhides]
        rintro ⟨⟩
        exact hba rfl
      · exact hall u hu
  · intro u hu
    have hat := h.places u
    refine hat.frame (fun _ => rfl) (fun _ => ⟨rfl, rfl⟩) (fun _ => ⟨rfl, fun _ hb => hb⟩) ?_
      fun b hb => (hat.hidden hb).2
    intro b hb
    have hba : b ≠ a := by
      rintro rfl
      rcases hb with hhid | htk
      · exact hu (h.distinct u t b hhid hhides)
      · exact h.hidden_incoming hwf hhides (hat.taken htk).2
    simp [hba]

/-! ### Close, and what concerns no bio -/

theorem Agree.splice (h : Agree s c) (hown : Locks.Owned driver c) {f : FileId}
    (hpc : c.pc t = .splice f) :
    Goes s c t fun w => ({ w with dev := w.dev.spliceBack }, .closeUnlockPending,
      some (.chRelease f, .ret 0 .nothing)) := by
  have hsole : (c.pc t).sole = true := by rw [hpc]; rfl
  have hlock : .incoming ∈ (c.pc t).held := by rw [hpc]; simp [Pc.held]
  have hlock' : .pending ∈ (c.pc t).held := by rw [hpc]; simp [Pc.held]
  have hpending := h.pending hsole (by rw [hpc]; rfl)
  refine ⟨{ s with dev := bdtunchRelease s.dev }, .of_next trivial rfl (by simp),
    h.move ?_ (fun _ _ => rfl) ?_ trivial ?_ (by simp [Pc.hides]) fun _ u hu => h.not_sole hsole hu⟩
  · obtain ⟨hin, hcur, hrem, hmem, hj, hended, hdel⟩ := h.data
    refine ⟨?_, hcur, hrem, hmem, hj, hended, hdel⟩
    show s.dev.incomingBioList ++ s.dev.pendingBioList =
      c.shared.dev.incomingBioList ++ c.shared.dev.pendingBioList
    rw [hin, hpending]
  · intro a _ hall
    refine h.bios a fun u => ?_
    by_cases hu : u = t
    · rw [hu, hpc]
      simp [Pc.hides]
    · exact hall u hu
  · intro u hu
    have hat := h.places u
    refine hat.frame (fun hin => absurd hin (not_held hown hlock hu)) (fun hend => ?_)
      (fun husole => ?_) (fun _ _ => rfl) fun b hb => (hat.hidden hb).2
    · exact absurd (ending_held hend) (not_held hown hlock' hu)
    · rw [h.not_sole hsole hu] at husole
      cases husole

theorem Agree.ruSection (h : Agree s c) {x : RuSection} (hpc : c.pc t = .ruSection x) :
    Goes s c t fun w =>
      ({ w with dev := (x.body w.dev).1 }, .ruUnlock, (x.body w.dev).2) := by
  obtain ⟨hin, hcur, hrem, hmem, hj, hended, hdel⟩ := h.data
  have haside : ∀ {s' w' : World}, SameData s' w' → Linked s s' → Linked c.shared w' →
      Agree s' { c.goto t .ruUnlock with shared := w' } := fun hd hs hw =>
    h.along hd hs hw (by rw [hpc]; rfl) (by rw [hpc]; rfl) (by simp [Pc.sole]) trivial
  cases x with
  | chOpen f =>
    cases hr : c.shared.dev.removing with
    | true =>
      have hs := bdtunchOpen_of_removing (hrem.trans hr)
      have hw := bdtunchOpen_of_removing hr
      have hnext : tunnelNext s (.chOpen f) = (s, .ret (-ebusy) .nothing) := by
        show ({ s with dev := (bdtunchOpen s.dev).1 }, Ret.ret (bdtunchOpen s.dev).2 .nothing) = _
        rw [hs]
      simp only [Goes, RuSection.body, hw]
      exact ⟨s, .of_next trivial hnext (by simp),
        haside ⟨hin, hcur, hrem, hmem, hj, hended, hdel⟩ ⟨rfl, rfl, rfl, rfl⟩ ⟨rfl, rfl, rfl, rfl⟩⟩
    | false =>
      have hs := bdtunchOpen_of_not_removing (hrem.trans hr)
      have hw := bdtunchOpen_of_not_removing hr
      have hnext : tunnelNext s (.chOpen f) =
          ({ s with dev := { s.dev with ucnt := s.dev.ucnt + 1 } }, .ret 0 .nothing) := by
        show ({ s with dev := (bdtunchOpen s.dev).1 }, Ret.ret (bdtunchOpen s.dev).2 .nothing) = _
        rw [hs]
      simp only [Goes, RuSection.body, hw]
      exact ⟨_, .of_next trivial hnext (by simp),
        haside ⟨hin, hcur, hrem, hmem, hj, hended, hdel⟩ ⟨rfl, rfl, rfl, rfl⟩ ⟨rfl, rfl, rfl, rfl⟩⟩
  | chRelease =>
    exact ⟨s, .nothing,
      haside ⟨hin, hcur, hrem, hmem, hj, hended, hdel⟩ ⟨rfl, rfl, rfl, rfl⟩ ⟨rfl, rfl, rfl, rfl⟩⟩
  | bdOpen =>
    refine ⟨s, .nothing, ?_⟩
    simp only [RuSection.body]
    split
    · exact haside ⟨hin, hcur, hrem, hmem, hj, hended, hdel⟩ ⟨rfl, rfl, rfl, rfl⟩ ⟨rfl, rfl, rfl, rfl⟩
    · exact haside ⟨hin, hcur, hrem, hmem, hj, hended, hdel⟩ ⟨rfl, rfl, rfl, rfl⟩ ⟨rfl, rfl, rfl, rfl⟩
  | bdRelease =>
    exact ⟨s, .nothing,
      haside ⟨hin, hcur, hrem, hmem, hj, hended, hdel⟩ ⟨rfl, rfl, rfl, rfl⟩ ⟨rfl, rfl, rfl, rfl⟩⟩

theorem Agree.tick (h : Agree s c) (hpc : c.pc t = .tick) :
    Goes s c t fun w => ({ w with jiffies := (w.jiffies + 1) % 2 ^ bitsPerLong }, .idle,
      some (.tick, .ret 0 .nothing)) := by
  refine ⟨{ s with jiffies := (s.jiffies + 1) % 2 ^ bitsPerLong }, .of_next trivial rfl (by simp), ?_⟩
  refine h.along ?_ ⟨rfl, rfl, rfl, rfl⟩ ⟨rfl, rfl, rfl, rfl⟩ (by rw [hpc]; rfl) (by rw [hpc]; rfl)
    (by simp [Pc.sole]) trivial
  obtain ⟨hin, hcur, hrem, hmem, hj, hended, hdel⟩ := h.data
  exact ⟨hin, hcur, hrem, hmem, by rw [hj], hended, hdel⟩

/-! ## Every step -/

theorem Agree.act (h : Agree s c) (hwf : s.Wf) (hown : Locks.Owned driver c)
    {step : World → Effected} (hi : (c.pc t).instr = .act step) : Goes s c t step := by
  cases hpc : c.pc t with
  | kmalloc bio new => rw [hpc] at hi; cases hi; exact h.kmalloc hpc
  | addTail bio new => rw [hpc] at hi; cases hi; exact h.addTail hown hpc
  | wakeUp bio =>
    rw [hpc] at hi
    cases hi
    exact ⟨s, .nothing,
      h.walk (by rw [hpc]; rfl) (by rw [hpc]; rfl) (by simp [Pc.sole]) trivial⟩
  | account bio =>
    rw [hpc] at hi
    cases hi
    refine ⟨s, .nothing, ?_⟩
    obtain ⟨hin, hcur, hrem, hmem, hj, hended, hdel⟩ := h.data
    exact h.along ⟨hin, hcur, hrem, hmem, hj, hended, hdel⟩ ⟨rfl, rfl, rfl, rfl⟩ ⟨rfl, rfl, rfl, rfl⟩
      (by rw [hpc]; rfl) (by rw [hpc]; rfl) (by simp [Pc.sole]) trivial
  | prepareToWait f valid signal =>
    rw [hpc] at hi
    cases hi
    exact ⟨s, .nothing,
      h.walk (by rw [hpc]; rfl) (by rw [hpc]; rfl) (by simp [Pc.sole]) trivial⟩
  | headCheck f valid signal => rw [hpc] at hi; cases hi; exact h.headCheck hwf hpc
  | moveTail f valid signal a entry => rw [hpc] at hi; cases hi; exact h.moveTail hwf hown hpc
  | setStore f buf valid hlen => rw [hpc] at hi; cases hi; exact h.setStore hpc
  | mmapCheck f vma fail => rw [hpc] at hi; cases hi; exact h.mmapCheck hpc
  | curLoad k =>
    have hat := h.places t
    rw [hpc] at hi hat
    cases hi
    exact ⟨s, .nothing,
      h.walk (by rw [hpc]; rfl) (by rw [hpc]; rfl) (fun _ => by rw [hpc]; rfl) ⟨rfl, hat⟩⟩
  | transfer x a => rw [hpc] at hi; cases hi; exact h.transfer hwf hpc
  | endio f byte valid a => rw [hpc] at hi; cases hi; exact h.endio hwf hpc
  | iostat a => rw [hpc] at hi; cases hi; exact h.iostat hpc
  | unlink a => rw [hpc] at hi; cases hi; exact h.unlink hwf hpc
  | free a => rw [hpc] at hi; cases hi; exact h.free hwf hpc
  | splice f => rw [hpc] at hi; cases hi; exact h.splice hown hpc
  | ruSection x => rw [hpc] at hi; cases hi; exact h.ruSection hpc
  | pollTest =>
    rw [hpc] at hi
    cases hi
    exact ⟨s, .nothing,
      h.walk (by rw [hpc]; rfl) (by rw [hpc]; rfl) (by simp [Pc.sole]) trivial⟩
  | tick => rw [hpc] at hi; cases hi; exact h.tick hpc
  | curUnlock k a => rw [hpc] at hi; cases k <;> cases hi
  | _ => rw [hpc] at hi; cases hi

/-- Taking or giving back a lock changes nothing else for a thread. -/
theorem lock_standing {pc next : Pc} {l : Lock}
    (h : pc.instr = .lock l next ∨ pc.instr = .unlock l next) :
    next.hides = pc.hides ∧ next.ending = pc.ending ∧
      (next.sole = true → pc.sole = true) ∧ ∀ s w : World, At s w pc → At s w next := by
  rcases h with h | h
  · cases pc with
    | curUnlock k a => cases k <;> cases h
    | _ => cases h <;> exact ⟨rfl, rfl, by simp [Pc.sole], fun _ _ hat => hat⟩
  · cases pc with
    | curUnlock k a => cases k <;> (cases h; exact ⟨rfl, rfl, id, fun _ _ hat => hat⟩)
    | _ => cases h <;> exact ⟨rfl, rfl, by simp [Pc.sole], fun _ _ hat => hat⟩

/-- A thread that rests hides nothing, and where it is sent on to it has found nothing but what the
clients saw to. -/
theorem rest_standing {pc : Pc} {next : Pc → Bool} (h : pc.instr = .rest next) :
    pc.hides = none ∧ pc.ending = false ∧ ∀ pc', next pc' = true → pc'.hides = none ∧
      pc'.ending = false ∧ ∀ s w : World,
        (pc'.onCurrent = true → w.dev.dataCurrentBio ∈ w.dev.pendingBioList) → At s w pc' := by
  cases pc with
  | curUnlock k a => cases k <;> cases h
  | idle =>
    cases h
    refine ⟨rfl, rfl, fun pc' hentry => ?_⟩
    cases pc' <;> first | exact ⟨rfl, rfl, fun _ _ hcur => hcur rfl⟩ |
      exact ⟨rfl, rfl, fun _ _ _ => trivial⟩ | cases hentry
  | schedule f valid signal =>
    cases h
    refine ⟨rfl, rfl, fun pc' hentry => ?_⟩
    cases pc' <;> first | exact ⟨rfl, rfl, fun _ _ _ => trivial⟩ | cases hentry
  | _ => cases h

theorem Agree.resume (h : Agree s c) {next : Pc → Bool} (hi : (c.pc t).instr = .rest next)
    (hn : next pc' = true) (ho : Orderly c (.resume t pc')) : Agree s (c.goto t pc') := by
  obtain ⟨hhides, hending, hsent⟩ := rest_standing hi
  obtain ⟨hhides', hending', hat⟩ := hsent pc' hn
  refine h.move h.data (fun _ hall => ?_) (fun a _ hall => ?_) (hat s c.shared ho.2)
    (fun u _ => h.places u) (fun a ha => ?_) fun hsole u _ => ho.1 hsole u
  · refine h.quiet fun u => ?_
    by_cases hu : u = t
    · rw [hu]
      exact hending
    · exact hall u hu
  · refine h.bios a fun u => ?_
    by_cases hu : u = t
    · rw [hu, hhides]
      simp
    · exact hall u hu
  · rw [hhides'] at ha
    cases ha

/-- **Every step** of orderly clients is nothing to `tunnel`, or one call. -/
theorem Agree.next (h : Agree s c) (hwf : s.Wf) (hown : Locks.Owned driver c) {a : Act T Pc}
    (he : (crew T).enabled c a) (ho : Orderly c a) :
    ∃ s', Took s ((crew T).next c a).2 s' ∧ Agree s' ((crew T).next c a).1 := by
  have hmoves := Locks.moves_of_enabled (p := driver) he
  generalize hres : (crew T).next c a = res
  have hsame : (running T driver).next c a = res := hres
  rw [hsame] at hmoves
  cases hmoves with
  | resumed t pc next hi hn => exact ⟨s, .nothing, h.resume hi hn ho⟩
  | locked t l next hi hfree =>
    obtain ⟨hhides, hending, hsole, hat⟩ := lock_standing (Or.inl hi)
    exact ⟨s, .nothing, (h.walk hhides hending hsole (hat _ _ (h.places t))).owner _⟩
  | unlocked t l next hi =>
    obtain ⟨hhides, hending, hsole, hat⟩ := lock_standing (Or.inr hi)
    exact ⟨s, .nothing, (h.walk hhides hending hsole (hat _ _ (h.places t))).owner _⟩
  | acted t step hi => exact h.act hwf hown hi

/-! ## Runs -/

/-- Anyone may call anything. -/
abbrev anyCalls : Policy Call Ret := fun _ _ => True

omit [DecidableEq T] in
theorem agree_start (world : World) : Agree world (Locks.State.start world .idle : Crew T) :=
  ⟨⟨rfl, rfl, rfl, rfl, rfl, rfl, rfl⟩, fun _ => rfl, fun _ _ => rfl, fun _ => trivial,
    by simp [Locks.State.start, Pc.hides], by simp [Locks.State.start, Pc.sole]⟩

/-- The run of `tunnel` that a run of orderly clients is. -/
theorem run_agree {blockSize size : Nat} {mem : Mem}
    {tr : List (Act T Pc × Option (Call × Ret))} {c : Crew T}
    (hrun : Run ((crew T).restrict Orderly) anyCrew (.start (World.init blockSize size mem) .idle) tr c) :
    Locks.Owned driver c ∧
      ∃ s, Run tunnel anyCalls (World.init blockSize size mem) (effects tr) s ∧ Agree s c := by
  refine hrun.invariant (fun tr c => Locks.Owned driver c ∧
    ∃ s, Run tunnel anyCalls (World.init blockSize size mem) (effects tr) s ∧ Agree s c) ?_ ?_
  · refine ⟨?_, World.init blockSize size mem, .refl, agree_start _⟩
    exact Locks.run_owned (P := anyCrew) driver_disciplined rfl .refl
  · rintro tr c a ⟨hown, s, hs, hagree⟩ - he
    obtain ⟨s', htook, hagree'⟩ := hagree.next (run_tracks hs).wf hown he.1 he.2
    refine ⟨hown.next driver_disciplined he.1, s', ?_, hagree'⟩
    show Run tunnel anyCalls _ (effects (tr ++ [(a, ((crew T).next c a).2)])) s'
    rw [effects, List.filterMap_append]
    cases hr : ((crew T).next c a).2 with
    | none =>
      rw [hr] at htook
      cases htook
      simpa [effects] using hs
    | some e =>
      rw [hr] at htook
      cases htook with
      | call call hcall => exact .step call hs trivial hcall

/-! ## Each call takes effect once, in its turn -/

/-- What is asked for, before the allocator has answered. -/
def Call.asked : Call → Call
  | .submit bio _ => .submit bio none
  | c => c

/-- The call that has still to take effect, for a thread at a place. -/
def Pc.owes : Pc → List Call
  | .kmalloc bio _ => [.submit bio none]
  | .addLock bio _ => [.submit bio none]
  | .addTail bio _ => [.submit bio none]
  | .prepareToWait f valid signal => [.read f bdtunTxreqHeaderSize valid signal]
  | .headLock f valid signal => [.read f bdtunTxreqHeaderSize valid signal]
  | .headCheck f valid signal => [.read f bdtunTxreqHeaderSize valid signal]
  | .moveLock f valid signal _ _ => [.read f bdtunTxreqHeaderSize valid signal]
  | .moveTail f valid signal _ _ => [.read f bdtunTxreqHeaderSize valid signal]
  | .setLock f buf valid _ => [.write f buf valid]
  | .setStore f buf valid _ => [.write f buf valid]
  | .mmapCheck f vma fail => [.mmap f vma fail]
  | .curLock (.transfer x) => [x.call]
  | .curLock (.complete f byte valid) => [.write f [byte] valid]
  | .curLoad (.transfer x) => [x.call]
  | .curLoad (.complete f byte valid) => [.write f [byte] valid]
  | .curUnlock (.transfer x) _ => [x.call]
  | .curUnlock (.complete f byte valid) _ => [.write f [byte] valid]
  | .transfer x _ => [x.call]
  | .endLock f byte valid _ => [.write f [byte] valid]
  | .endio f byte valid _ => [.write f [byte] valid]
  | .closeLock f => [.chRelease f]
  | .closeLockPending f => [.chRelease f]
  | .splice f => [.chRelease f]
  | .ruLock (.chOpen f) => [.chOpen f]
  | .ruSection (.chOpen f) => [.chOpen f]
  | .tick => [.tick]
  | _ => []

/-- The calls that a thread was sent into; a header read that goes round again is one more. -/
def begun (t : T) (tr : List (Act T Pc × Option (Call × Ret))) : List Call :=
  tr.flatMap fun e => match e.1 with
    | .resume u pc => if u = t then pc.owes else []
    | .step _ => []

/-- The calls of a thread that took effect. -/
def effective (t : T) (tr : List (Act T Pc × Option (Call × Ret))) : List Call :=
  effects (tr.filter fun e => e.1.thread = t) |>.map fun e => e.1.asked

/-- What a statement makes of what is owed. -/
theorem act_owes {pc : Pc} {step : World → Effected} (h : pc.instr = .act step) (w : World)
    (hsafe : (step w).2.1.crashed = false) :
    pc.owes = ((step w).2.2.toList.map fun e => e.1.asked) ++ (step w).2.1.owes := by
  have hleads := leads_of_act h w
  generalize (step w).2.1 = pc', (step w).2.2 = e at hleads hsafe ⊢
  cases hleads with
  | loaded k a => cases k <;> rfl
  | transferred x a r => cases x <;> rfl
  | counter x hx =>
    cases x with
    | chOpen f => exact absurd rfl (hx f)
    | _ => rfl
  | oops pc hcost => cases hsafe
  | fault pc hcost hbuf => cases hsafe
  | _ => rfl

theorem lock_owes {pc next : Pc} {l : Lock}
    (h : pc.instr = .lock l next ∨ pc.instr = .unlock l next) : next.owes = pc.owes := by
  rcases h with h | h
  · cases pc with
    | curUnlock k a => cases k <;> cases h
    | curLock k => cases h; cases k <;> rfl
    | ruLock x => cases h; cases x <;> rfl
    | _ => cases h <;> rfl
  · cases pc with
    | curUnlock k a => cases k <;> cases h <;> rfl
    | _ => cases h <;> rfl

theorem rest_owes {pc : Pc} {next : Pc → Bool} (h : pc.instr = .rest next) : pc.owes = [] := by
  cases pc with
  | curUnlock k a => cases k <;> cases h
  | _ => cases h <;> rfl

theorem begun_snoc (t : T) (tr : List (Act T Pc × Option (Call × Ret))) (a : Act T Pc)
    (r : Option (Call × Ret)) : begun t (tr ++ [(a, r)]) = begun t tr ++ begun t [(a, r)] := by
  simp [begun]

theorem effective_snoc (t : T) (tr : List (Act T Pc × Option (Call × Ret))) (a : Act T Pc)
    (r : Option (Call × Ret)) :
    effective t (tr ++ [(a, r)]) = effective t tr ++ effective t [(a, r)] := by
  simp [effective, effects, List.filter_append]

theorem effective_self (t : T) (a : Act T Pc) (r : Option (Call × Ret)) (h : a.thread = t) :
    effective t [(a, r)] = r.toList.map fun e => e.1.asked := by
  cases r <;> simp [effective, effects, h]

theorem effective_other (t : T) (a : Act T Pc) (r : Option (Call × Ret)) (h : a.thread ≠ t) :
    effective t [(a, r)] = [] := by
  simp [effective, effects, h]

/-- The calls of a thread take effect in the order in which it makes them, each once and before it
returns from it. -/
theorem calls_in_turn {world : World} {P : Policy (Act T Pc) (Option (Call × Ret))}
    {tr : List (Act T Pc × Option (Call × Ret))} {c : Crew T}
    (hrun : Run (crew T) P (.start world .idle) tr c) (t : T) (hsafe : (c.pc t).crashed = false) :
    begun t tr = effective t tr ++ (c.pc t).owes := by
  refine hrun.invariant (fun tr c => (c.pc t).crashed = false →
    begun t tr = effective t tr ++ (c.pc t).owes) (fun _ => rfl) ?_ hsafe
  intro tr c a ih _ he hsafe
  have hmoves := Locks.moves_of_enabled (p := driver) he
  rw [begun_snoc, effective_snoc]
  by_cases ha : a.thread = t
  · rw [effective_self t a _ ha]
    have hsame : (crew T).next c a = (running T driver).next c a := rfl
    rw [hsame] at hsafe ⊢
    -- a thread that moves was not killed
    have hbefore : ∀ i, (c.pc t).instr = i → i ≠ .crash →
        begun t tr = effective t tr ++ (c.pc t).owes := by
      intro i hi hne
      refine ih ?_
      by_contra hcrash
      exact hne (hi.symm.trans (instr_crash.mpr (by simpa using hcrash)))
    generalize (running T driver).next c a = res at hmoves hsafe
    cases hmoves with
    | resumed u pc next hi hn =>
      obtain rfl : u = t := ha
      have hpc : (c.goto u pc).pc u = pc := Locks.goto_self c u pc
      have hold := hbefore _ hi (by simp)
      rw [rest_owes hi, List.append_nil] at hold
      have hmore : begun u [(.resume u pc, (none : Option (Call × Ret)))] = pc.owes := by
        simp [begun]
      rw [hold, hmore, hpc]
      simp
    | locked u l next hi hfree =>
      obtain rfl : u = t := ha
      have hpc : (c.goto u next).pc u = next := Locks.goto_self c u next
      have hold := hbefore _ hi (by simp)
      rw [← lock_owes (Or.inl hi)] at hold
      simpa [hpc, begun] using hold
    | unlocked u l next hi =>
      obtain rfl : u = t := ha
      have hpc : (c.goto u next).pc u = next := Locks.goto_self c u next
      have hold := hbefore _ hi (by simp)
      rw [← lock_owes (Or.inr hi)] at hold
      simpa [hpc, begun] using hold
    | acted u step hi =>
      obtain rfl : u = t := ha
      have hpc : (c.goto u (step c.shared).2.1).pc u = (step c.shared).2.1 := Locks.goto_self c u _
      have hold := hbefore _ hi (by simp)
      have hgoes : (step c.shared).2.1.crashed = false := by
        rw [← hpc]
        exact hsafe
      rw [act_owes hi c.shared hgoes] at hold
      simpa [hpc, begun] using hold
  · have hpc : ((crew T).next c a).1.pc t = c.pc t :=
      Locks.next_other (p := driver) he (Ne.symm ha)
    have hnone : begun t [(a, ((crew T).next c a).2)] = [] := by
      cases a with
      | resume u pc => exact (List.append_nil _).trans (if_neg ha)
      | step u => rfl
    rw [hpc] at hsafe ⊢
    rw [effective_other t a _ ha, hnone, List.append_nil, List.append_nil]
    exact ih hsafe

/-! ## The calls are atomic -/

/-- **Atomicity.**  In every run of any number of threads, with orderly clients: the calls in the order
of their effects are a run of `tunnel`, with the answers that they give; those of each thread that was
not killed are in it once, in the order in which the thread makes them, each between its start and its
end; the incoming list, the cursor, the pages and the ended bios are those of that run all along, and
once all threads are at rest the pending list and the bios of the entries too; and no dead address has
been dereferenced. -/
theorem calls_atomic {blockSize size : Nat} {mem : Mem}
    {tr : List (Act T Pc × Option (Call × Ret))} {c : Crew T}
    (hrun : Run ((crew T).restrict Orderly) anyCrew (.start (World.init blockSize size mem) .idle) tr c) :
    (∃ s, Run tunnel anyCalls (World.init blockSize size mem) (effects tr) s ∧
      SameData s c.shared ∧
      ((∀ t, driver.Resting (c.pc t)) →
        s.dev.pendingBioList = c.shared.dev.pendingBioList ∧ ∀ a, s.bioAt a = c.shared.bioAt a)) ∧
    (∀ t, (c.pc t).crashed = false → begun t tr = effective t tr ++ (c.pc t).owes) ∧
    ∀ t held, c.pc t ≠ .oops held := by
  obtain ⟨-, s, hs, hagree⟩ := run_agree hrun
  refine ⟨⟨s, hs, hagree.data, fun hrest => ⟨?_, fun a => ?_⟩⟩,
    fun t hsafe => calls_in_turn hrun.unrestrict t hsafe, fun t held hoops => ?_⟩
  · refine hagree.quiet fun t => ?_
    obtain ⟨next, hi⟩ := hrest t
    exact (rest_standing hi).2.1
  · refine hagree.bios a fun t => ?_
    obtain ⟨next, hi⟩ := hrest t
    rw [(rest_standing hi).1]
    simp
  · have hat := hagree.places t
    rw [hoops] at hat
    exact hat

/-- Orderly clients leave every list access under its lock. -/
theorem orderly_guarded {blockSize size : Nat} {mem : Mem}
    {tr : List (Act T Pc × Option (Call × Ret))} {c : Crew T}
    (hrun : Run ((crew T).restrict Orderly) anyCrew (.start (World.init blockSize size mem) .idle) tr c)
    (a : Act T Pc) : Guarded c a := by
  obtain ⟨hown, s, hs, hagree⟩ := run_agree hrun
  refine (guarded_iff hown a).mpr ?_
  cases a with
  | resume t pc => trivial
  | step t =>
    intro b hpc
    exact hagree.hidden_incoming (t := t) (run_tracks hs).wf (by rw [hpc]; rfl)

/-! ## Calls return -/

/-- Threads are sent into calls with accessible buffers. -/
def Accessible : Act T Pc → Prop
  | .resume _ pc => pc.accessible = true
  | .step _ => True

instance : (a : Act T Pc) → Decidable (Accessible a)
  | .resume _ _ => inferInstanceAs (Decidable (_ = true))
  | .step _ => isTrue trivial

/-- Orderly clients whose buffers are accessible. -/
def Careful (c : Crew T) (a : Act T Pc) : Prop := Orderly c a ∧ Accessible a

instance [Fintype T] (c : Crew T) (a : Act T Pc) : Decidable (Careful c a) :=
  inferInstanceAs (Decidable (_ ∧ _))

/-- Going on with the calls under way is careful. -/
theorem alone_careful {tr₀ tr : List (Act T Pc × Option (Call × Ret))} {c c' : Crew T}
    (h : Path (crew T) Locks.alone tr₀ c tr c') :
    Path ((crew T).restrict Careful) Locks.alone tr₀ c tr c' := by
  induction h with
  | refl => exact .refl
  | @step tr c a _ hp he ih =>
    have halone := hp
    obtain ⟨t, rfl⟩ := hp
    have hcareful : Careful c (.step t) := ⟨trivial, trivial⟩
    exact .step (.step t) ih halone ⟨he, hcareful⟩

theorem act_accessible {pc : Pc} {step : World → Effected} (h : pc.instr = .act step) (w : World)
    (hbuf : pc.accessible = true) : (step w).2.1.accessible = true := by
  have hleads := leads_of_act h w
  generalize (step w).2.1 = pc', (step w).2.2 = e at hleads
  cases hleads with
  | loaded k a => cases k <;> exact hbuf
  | fault pc hcost hnot =>
    rw [hnot] at hbuf
    cases hbuf
  | prepared f valid signal => exact hbuf
  | empty f valid signal r => exact hbuf
  | _ => rfl

theorem lock_accessible {pc next : Pc} {l : Lock}
    (h : pc.instr = .lock l next ∨ pc.instr = .unlock l next) (hbuf : pc.accessible = true) :
    next.accessible = true := by
  rcases h with h | h
  · cases pc with
    | curUnlock k a => cases k <;> cases h
    | curLock k => cases h; cases k <;> exact hbuf
    | _ => cases h <;> exact hbuf
  · cases pc with
    | curUnlock k a => cases k <;> cases h <;> exact hbuf
    | _ => cases h <;> exact hbuf

/-- The buffers of careful clients stay accessible. -/
theorem run_accessible {world : World} {tr : List (Act T Pc × Option (Call × Ret))} {c : Crew T}
    (hrun : Run ((crew T).restrict Careful) anyCrew (.start world .idle) tr c) :
    ∀ t, (c.pc t).accessible = true := by
  refine hrun.invariant (fun _ c => ∀ t, (c.pc t).accessible = true) (fun _ => rfl) ?_
  intro tr c a hall _ he u
  by_cases hu : u = a.thread
  · have hmoves := Locks.moves_of_enabled (p := driver) he.1
    have hsame : ((crew T).restrict Careful).next c a = (running T driver).next c a := rfl
    rw [hsame]
    generalize (running T driver).next c a = res at hmoves
    subst hu
    cases hmoves with
    | resumed t pc next hi hn =>
      show ((c.goto t pc).pc t).accessible = true
      rw [Locks.goto_self]
      exact he.2.2
    | locked t l next hi hfree =>
      show ((c.goto t next).pc t).accessible = true
      rw [Locks.goto_self]
      exact lock_accessible (Or.inl hi) (hall t)
    | unlocked t l next hi =>
      show ((c.goto t next).pc t).accessible = true
      rw [Locks.goto_self]
      exact lock_accessible (Or.inr hi) (hall t)
    | acted t step hi =>
      show ((c.goto t (step c.shared).2.1).pc t).accessible = true
      rw [Locks.goto_self]
      exact act_accessible hi c.shared (hall t)
  · rw [show (((crew T).restrict Careful).next c a).1.pc u = c.pc u from
      Locks.next_other (p := driver) he.1 hu]
    exact hall u

/-- **Calls return.**  From every state that orderly clients with accessible buffers can reach, all
calls under way can be brought to their end, or to sleep, without a new one. -/
theorem orderly_calls_return {blockSize size : Nat} {mem : Mem}
    {tr : List (Act T Pc × Option (Call × Ret))} {c : Crew T}
    (hrun : Run ((crew T).restrict Careful) anyCrew (.start (World.init blockSize size mem) .idle) tr c) :
    ∃ more c', Path ((crew T).restrict Careful) Locks.alone tr c more c' ∧
      ∀ t, driver.Resting (c'.pc t) := by
  have horderly : ∀ {tr : List (Act T Pc × Option (Call × Ret))} {c : Crew T},
      Run ((crew T).restrict Careful) anyCrew (.start (World.init blockSize size mem) .idle) tr c →
      Run ((crew T).restrict Orderly) anyCrew (.start (World.init blockSize size mem) .idle) tr c :=
    fun h => h.relax fun _ _ hc => hc.1
  have hown := (run_agree (horderly hrun)).1
  have hrest : driver.Resting Pc.idle := ⟨Pc.isEntry, rfl⟩
  have hwithin := Locks.run_within hrest hrun.unrestrict
  have hcrash : ∀ more c', Path (running T driver) Locks.alone tr c more c' →
      ∀ t, driver.instr (c'.pc t) ≠ .crash := by
    intro more c' hpath t hcrash
    have hrun' := hrun.trans ((alone_careful hpath).weaken fun _ _ _ => trivial)
    have hbuf := run_accessible hrun' t
    obtain ⟨-, s, -, hagree⟩ := run_agree (horderly hrun')
    have hat := hagree.places t
    have hkilled := instr_crash.mp hcrash
    cases hpc : c'.pc t with
    | oops held => rw [hpc] at hat; exact hat
    | fault held => rw [hpc] at hbuf; cases hbuf
    | _ => rw [hpc] at hkilled; cases hkilled
  obtain ⟨more, c', hpath, hall⟩ :=
    Locks.calls_end driver_disciplined driver_lowers hown hwithin tr hcrash
  exact ⟨more, c', alone_careful hpath, hall⟩

end

/-! ## A sample run -/

section
attribute [local instance] linux32

/-- One thread submits a write while another is in a header read, then sets and completes it. -/
def sampleCrew : List (Act (Fin 2) Pc) :=
  [.resume 0 (.kmalloc sampleWrite 16), .step 0, .step 0, .resume 1 (.prepareToWait 0 32 false),
    .step 1, .step 0, .step 0, .step 1, .step 0, .step 1, .step 1, .step 1, .step 1, .step 1, .step 0,
    .resume 1 (.setLock 0 (wordBytes 8 16) 8 (by decide)), .step 1, .step 1, .step 1,
    .resume 1 (.curLock (.complete 0 0 1)), .step 1, .step 1, .step 1, .step 1, .step 1, .step 1,
    .step 1, .step 1, .step 1]

abbrev sampleStart : Crew (Fin 2) := .start (World.init 512 1024 fun _ => 0) .idle

theorem sampleCrew_run : Run ((crew (Fin 2)).restrict Careful) anyCrew sampleStart
    (traceOf ((crew (Fin 2)).restrict Careful) sampleStart sampleCrew)
    (exec ((crew (Fin 2)).restrict Careful) sampleStart sampleCrew) :=
  path_exec sampleCrew (by decide)

theorem sampleCrew_orderly : Run ((crew (Fin 2)).restrict Orderly) anyCrew sampleStart
    (traceOf ((crew (Fin 2)).restrict Careful) sampleStart sampleCrew)
    (exec ((crew (Fin 2)).restrict Careful) sampleStart sampleCrew) :=
  sampleCrew_run.relax fun _ _ h => h.1

theorem calls_atomic_sample :
    (∃ s, Run tunnel anyCalls (World.init 512 1024 fun _ => 0)
      [(.submit sampleWrite (some 16), .ret 0 .nothing),
        (.read 0 32 32 false, .ret 32 (.header ⟨16, 2, 512, 512⟩)),
        (.write 0 (wordBytes 8 16) 8, .ret 8 .nothing), (.write 0 [0] 1, .ret 1 .nothing)] s ∧
      s.ended = [(sampleWrite, 0)]) ∧
    effective (1 : Fin 2) (traceOf ((crew (Fin 2)).restrict Careful) sampleStart sampleCrew) =
      [.read 0 32 32 false, .write 0 (wordBytes 8 16) 8, .write 0 [0] 1] := by
  obtain ⟨⟨s, hs, hdata, -⟩, hturn, -⟩ := calls_atomic sampleCrew_orderly
  have hbegun : begun (1 : Fin 2)
      (traceOf ((crew (Fin 2)).restrict Careful) sampleStart sampleCrew) =
      [.read 0 32 32 false, .write 0 (wordBytes 8 16) 8, .write 0 [0] 1] := by decide
  have hall := hturn 1 rfl
  rw [hbegun, show ((exec ((crew (Fin 2)).restrict Careful) sampleStart sampleCrew).pc 1).owes = []
    from rfl, List.append_nil] at hall
  exact ⟨⟨s, hs, hdata.ended⟩, hall.symm⟩

/-- In the middle of the run a thread has two locks, and one can go on. -/
theorem locks_ordered_sample :
    let c := exec ((crew (Fin 2)).restrict Careful) sampleStart (sampleCrew.take 12)
    (c.pc 1).held = {.incoming, .pending} ∧
      ∃ u, ¬ driver.Resting (c.pc u) ∧ (crew (Fin 2)).enabled c (.step u) := by
  have hrun := @path_exec _ _ _ ((crew (Fin 2)).restrict Careful) anyCrew [] sampleStart
    (sampleCrew.take 12) (by decide)
  refine ⟨by decide, (locks_ordered hrun.unrestrict).2.2.1 (fun t => ?_) 1 ?_⟩
  · revert t
    decide
  · rintro ⟨next, hrest⟩
    cases hrest

theorem orderly_guarded_sample : Guarded
    (exec ((crew (Fin 2)).restrict Careful) sampleStart sampleCrew) (.step 1) :=
  orderly_guarded sampleCrew_orderly (.step 1)

/-- In the middle of the run. -/
theorem orderly_calls_return_sample :
    ∃ more c', Path ((crew (Fin 2)).restrict Careful) Locks.alone
      (traceOf ((crew (Fin 2)).restrict Careful) sampleStart (sampleCrew.take 12))
      (exec ((crew (Fin 2)).restrict Careful) sampleStart (sampleCrew.take 12)) more c' ∧
      ∀ t, driver.Resting (c'.pc t) :=
  orderly_calls_return (path_exec (sampleCrew.take 12) (by decide))

/-- A request is delivered and set, its file is closed, and it is completed after all. -/
def staleCrew : List (Act (Fin 1) Pc) :=
  [.resume 0 (.kmalloc sampleWrite 16), .step 0, .step 0, .step 0, .step 0, .step 0, .step 0,
    .resume 0 (.prepareToWait 0 32 false), .step 0, .step 0, .step 0, .step 0, .step 0, .step 0,
    .step 0, .resume 0 (.setLock 0 (wordBytes 8 16) 8 (by decide)), .step 0, .step 0, .step 0,
    .resume 0 (.closeLock 0), .step 0, .step 0, .step 0, .step 0, .step 0, .step 0, .step 0, .step 0,
    .resume 0 (.curLock (.complete 0 0 1)), .step 0, .step 0, .step 0, .step 0, .step 0, .step 0]

/-- Why clients must be orderly: the entry is unlinked from the incoming list under the lock of the
other. -/
example : ∃ tr c, Run (crew (Fin 1)) anyCrew
    (.start (World.init 512 1024 fun _ => 0) .idle) tr c ∧
      (crew (Fin 1)).enabled c (.step 0) ∧ ¬ Guarded c (.step 0) := by
  refine ⟨_, _, path_exec staleCrew (by decide), by decide, fun hguarded => ?_⟩
  exact absurd (hguarded .incoming (by decide)) (by decide)

end

end BDTun
