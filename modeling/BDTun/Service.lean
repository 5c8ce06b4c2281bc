import BDTun.Disks

/-!
# Every bio has its turn

A client makes four calls for a bio, and sleeps in none of them while its device has
a bio.  So what the others do delays nothing: `every_bio_served`.
-/

namespace BDTun

open Memory Machine

section
variable [Kernel]
variable {s s' : Driver} {d d' : Device} {k k' : Client} {t t' : Server}
  {fin rest fin' rest' : List Loaded} {l : LibCall} {ret : Ret}

/-! ## Turns of a client -/

/-- The calls made for the request in hand. -/
def Phase.turns : Phase → Nat
  | .idle => 0
  | .haveRequest _ => 1
  | .requestSet _ => 2
  | .transferred _ => 3
  | .failed => 0

/-- The calls that the client did not sleep in. -/
def Client.turns (k : Client) : Nat := 4 * k.done.length + k.phase.turns

omit [Kernel] in
theorem Phase.turns_le (p : Phase) : p.turns ≤ 3 := by
  cases p <;> simp [Phase.turns]

/-- An idle client sleeps only where its device has no bio. -/
theorem Hosted.turn_idle (hs : Hosted s d k t fin rest) (hp : k.phase = .idle)
    (hwait : k.done.length < k.accepted.length) :
    (k.after (bdtunReadRequest 0 false) (s.world d).loaded
      (tunnelNext (s.world d) (bdtunReadRequest 0 false).call).2).phase.turns = 1 := by
  have hphase : t.phase = .idle := hs.phase.trans hp
  have hstands := hs.serving.stands
  unfold Stands at hstands
  rw [hphase] at hstands
  rw [← (hs.client_idle hp).client.1]
  rcases read_request_next hs.serving.wf 0 false with ⟨hnil, -⟩ | ⟨a, more, entry, -, -, hnext⟩
  · have hqueue := hs.serving.queue
    rw [hstands.1, hnil] at hqueue
    have hrest : rest.length = 0 := by simpa using (congrArg List.length hqueue).symm
    rw [hs.split, List.length_append, hs.done_length] at hwait
    omega
  · have hclient : t.client.phase = .haveRequest (header a entry) := by
      unfold Server.client
      rw [hphase, hnext]
    rw [hclient]
    rfl

/-- A completion is of one bio. -/
theorem Hosted.one_loaded (hs : Hosted s d k t fin rest) {req : Txreq}
    (hp : k.phase = .transferred req) : (s.world d).loaded.length = 1 := by
  have hstands := hs.serving.stands
  unfold Stands at hstands
  rw [hs.phase, hp] at hstands
  obtain ⟨p, entry, entry', hh⟩ := hs.holds hstands.1 hstands.2.1
  rw [World.loaded, hh.among.cur, bioAt_of_entry hh.among.live]
  rfl

omit [Kernel] in
theorem phase_of_not_failed {c : Prop} [Decidable c] {p q : Phase}
    (h : (if c then p else .failed) = q) (hq : q ≠ .failed) : q = p := by
  by_cases hc : c
  · rw [if_pos hc] at h
    exact h.symm
  · rw [if_neg hc] at h
    exact absurd h.symm hq

theorem failed_of_no_call (h : k.call = none) : k.phase = .failed := by
  unfold Client.call at h
  cases hp : k.phase with
  | failed => rfl
  | requestSet req =>
    simp only [hp] at h
    split at h <;> cases h
  | _ =>
    simp only [hp] at h
    cases h

/-- **A call of the client** is a turn, or it sleeps and its device has no bio. -/
theorem Hosted.turn (hs : Hosted s d k t fin rest) (hl : k.call = some l)
    (hafter : k.after l (s.world d).loaded (tunnelNext (s.world d) l.call).2 = k')
    (hs' : Hosted s' d' k' t' fin' rest') :
    k.turns ≤ k'.turns ∧ (k.done.length < k.accepted.length → k.turns < k'.turns) := by
  have hok := hs'.not_failed
  unfold Client.turns
  cases hp : k.phase with
  | idle =>
    rw [Client.call, hp] at hl
    obtain rfl := Option.some.inj hl
    have hdone : k'.done = k.done := by
      rw [← hafter]
      simp only [Client.after, hp]
      split <;> rfl
    rw [hdone]
    refine ⟨Nat.le_add_right _ _, fun hwait => ?_⟩
    have hturn := hs.turn_idle hp hwait
    rw [hafter] at hturn
    rw [hturn]
    exact Nat.lt_succ_self _
  | haveRequest req =>
    simp only [Client.after, hp] at hafter
    have hphase := phase_of_not_failed (congrArg Client.phase hafter) hok
    rw [hphase, ← hafter]
    exact ⟨Nat.le_succ _, fun _ => Nat.lt_succ_self _⟩
  | requestSet req =>
    simp only [Client.after, hp] at hafter
    have hphase := phase_of_not_failed (congrArg Client.phase hafter) hok
    rw [hphase, ← hafter]
    exact ⟨Nat.le_succ _, fun _ => Nat.lt_succ_self _⟩
  | transferred req =>
    have hone := hs.one_loaded hp
    simp only [Client.after, hp] at hafter
    have hphase := phase_of_not_failed (congrArg Client.phase hafter) hok
    rw [hphase, ← hafter]
    simp only [List.length_append, hone, Phase.turns]
    omega
  | failed => exact absurd hp hs.not_failed

/-! ## Turns in a run -/

variable {mem : Mem} {stores : DiskName → Store} {name : DiskName}
  {tr tr' : List (RackEvent × List (DriverCall × DriverRet))} {r r' : Rack}

/-- The event makes a device of that name. -/
def Remakes (name : DiskName) (r : Rack) : RackEvent → Prop
  | .control c => MakesDevice name (c, (controlNext r.driver.ctrl c).2)
  | _ => False

/-- The rack, while nobody makes a device of that name. -/
def staying (name : DiskName) : Machine Rack RackEvent (List (DriverCall × DriverRet)) :=
  rack.restrict fun r e => ¬ Remakes name r e

/-- A device with an open tunnel is there, and hosted. -/
theorem hosted_of_handle (hbits : bitsPerLong = 64)
    (hrun : Run rack rackUsers (Rack.start mem stores) tr r)
    (hp : (name, (Node.tunnel, 0)) ∈ (ctrlHist (controlPart (driverPart tr))).handles) :
    ∃ d ∈ r.driver.ctrl.deviceList, d.diskName = name ∧
      ∃ t fin rest, Hosted r.driver d (r.clients name) t fin rest := by
  have hr := run_racked hbits hrun
  obtain ⟨d, hd, rfl⟩ := (run_listing hr.run).homes _ hp
  exact ⟨d, hd, rfl, hr.served d hd⟩

/-- A client's call is not one of the control plane. -/
theorem client_controls (r : Rack) (name : DiskName) (tr : List (DriverCall × DriverRet)) :
    controlPart (tr ++ (rack.next r (.client name)).2) = controlPart tr := by
  cases hl : (r.clients name).call with
  | none => rw [client_next_none hl, List.append_nil]
  | some l =>
    rw [client_next_some hl]
    exact controlPart_other _ (by simp)

theorem client_kept (r : Rack) {n : DiskName} (h : name ≠ n) :
    (rack.next r (.client n)).1.clients name = r.clients name := by
  cases hl : (r.clients n).call with
  | none => rw [client_next_none hl]
  | some l =>
    rw [client_next_some hl]
    exact Function.update_of_ne h _ _

/-- The client after its call. -/
theorem client_after (hbits : bitsPerLong = 64)
    (hrun : Run rack rackUsers (Rack.start mem stores) tr r) (hd : d ∈ r.driver.ctrl.deviceList)
    (hs : Hosted r.driver d (r.clients d.diskName) t fin rest)
    (hl : (r.clients d.diskName).call = some l) :
    (rack.next r (.client d.diskName)).1.clients d.diskName =
      (r.clients d.diskName).after l (r.driver.world d).loaded
        (tunnelNext (r.driver.world d) l.call).2 := by
  have hfound := (run_listing (run_racked hbits hrun).run).find hd
  have ha := hs.act hbits hl
  have hnext := tunnel_next (c := l.call) hfound fun a hmem => mem_linked hd (ha.frees a hmem)
  have hloaded : r.driver.loaded d.diskName = (r.driver.world d).loaded := by
    rw [Driver.loaded, hfound]
  rw [client_next_some hl, hnext, hloaded]
  exact Function.update_self _ _ _

/-- What a client keeps while its device stays. -/
structure Later (k k' : Client) : Prop where
  accepted : ∃ more, k'.accepted = k.accepted ++ more
  turns : k.turns ≤ k'.turns

theorem Later.refl (k : Client) : Later k k := ⟨⟨[], (List.append_nil _).symm⟩, Nat.le_refl _⟩

theorem Later.trans {k₁ k₂ k₃ : Client} (h : Later k₁ k₂) (h' : Later k₂ k₃) : Later k₁ k₃ := by
  obtain ⟨more, hmore⟩ := h.accepted
  obtain ⟨more', hmore'⟩ := h'.accepted
  exact ⟨⟨more ++ more', by rw [hmore', hmore, List.append_assoc]⟩, h.turns.trans h'.turns⟩

/-- The call of the client of a device. -/
theorem client_turn (hbits : bitsPerLong = 64)
    (hrun : Run rack rackUsers (Rack.start mem stores) tr r)
    (hp : rackUsers tr (.client name)) :
    Later (r.clients name) ((rack.next r (.client name)).1.clients name) ∧
      ((r.clients name).done.length < (r.clients name).accepted.length →
        (r.clients name).turns < ((rack.next r (.client name)).1.clients name).turns) := by
  obtain ⟨d, hd, rfl, t, fin, rest, hs⟩ := hosted_of_handle hbits hrun hp
  have hstep : rackUsers ([] ++ tr) (.client d.diskName) := hp
  have hafter : (d.diskName, (Node.tunnel, 0)) ∈ (ctrlHist (controlPart (driverPart
      (tr ++ [(.client d.diskName, (rack.next r (.client d.diskName)).2)])))).handles := by
    rw [driverPart_snoc, client_controls]
    exact hp
  have hrun' := hrun.step (RackEvent.client d.diskName) hstep trivial
  obtain ⟨d', -, -, t', fin', rest', hs'⟩ := hosted_of_handle hbits hrun' hafter
  cases hl : (r.clients d.diskName).call with
  | none =>
    exact absurd (failed_of_no_call hl) hs.not_failed
  | some l =>
    have hnext := client_after hbits hrun hd hs hl
    obtain ⟨hle, hlt⟩ := hs.turn hl hnext.symm hs'
    refine ⟨⟨⟨[], ?_⟩, hle⟩, hlt⟩
    rw [hnext, after_accepted, List.append_nil]

/-- **An event** takes nothing from a client whose device stays. -/
theorem client_later (hbits : bitsPerLong = 64)
    (hrun : Run rack rackUsers (Rack.start mem stores) tr r) {e : RackEvent}
    (hp : rackUsers tr e) (hsame : ¬ Remakes name r e) :
    Later (r.clients name) ((rack.next r e).1.clients name) := by
  cases e with
  | control c =>
    have hkept : (rack.next r (.control c)).1.clients name = r.clients name :=
      renewed_other r.clients hsame
    rw [hkept]
    exact .refl _
  | submit n bio data new =>
    show Later _ (Function.update r.clients n _ name)
    by_cases hname : name = n
    · subst hname
      rw [Function.update_self]
      exact ⟨⟨_, rfl⟩, Nat.le_refl _⟩
    · rw [Function.update_of_ne hname]
      exact .refl _
  | scribble ps bytes => exact .refl _
  | tick => exact .refl _
  | client n =>
    by_cases hname : name = n
    · subst hname
      exact (client_turn hbits hrun hp).1
    · rw [client_kept r hname]
      exact .refl _

/-! ## What was completed -/

/-- What was ended stays so. -/
theorem path_ended {tr₀ tr : List (DriverCall × DriverRet)}
    (h : Path wholeDriver driverUsers tr₀ s tr s') : ∀ e ∈ s.ended, e ∈ s'.ended := by
  refine h.invariant (fun _ s' => ∀ e ∈ s.ended, e ∈ s'.ended) (fun _ he => he) ?_
  intro tr s₁ c ih _ he e hmem
  have hold := ih e hmem
  cases c with
  | tunnel name c =>
    obtain ⟨dev, hc⟩ := tunnel_calls he
    rw [hc.next]
    exact ended_grows hc.ok e hold
  | _ => exact hold

/-- The completed bios are the first that were accepted, and were ended. -/
structure Client.Right (ended : List (Bio × Int)) (k : Client) : Prop where
  done : k.done.map Prod.fst = (k.accepted.take k.done.length).map Prod.fst
  ended : ∀ p ∈ k.done, (p.1, 0) ∈ ended

theorem Client.Right.grow {ended ended' : List (Bio × Int)} (h : k.Right ended)
    (hended : ∀ e ∈ ended, e ∈ ended') : k.Right ended' :=
  ⟨h.done, fun p hp => hended _ (h.ended p hp)⟩

/-- More bios are accepted. -/
theorem Client.Right.more {ended : List (Bio × Int)} (h : k.Right ended) (more : List Loaded) :
    Client.Right ended { k with accepted := k.accepted ++ more } := by
  have hlen : k.done.length ≤ k.accepted.length := by
    have hsame := congrArg List.length h.done
    simp only [List.length_map, List.length_take] at hsame
    omega
  refine ⟨?_, h.ended⟩
  show k.done.map Prod.fst = ((k.accepted ++ more).take k.done.length).map Prod.fst
  rw [List.take_append_of_le_length hlen, h.done]

/-- Also where the device was removed since. -/
theorem run_right (hbits : bitsPerLong = 64)
    (hrun : Run rack rackUsers (Rack.start mem stores) tr r) :
    ∀ name, (r.clients name).Right r.driver.ended := by
  refine Run.keeps (fun tr r => ∀ name, (r.clients name).Right r.driver.ended) ?_ ?_ hrun
  · exact fun name => ⟨rfl, fun p hp => by cases hp⟩
  · intro tr r e hrun ih hp he name
    have hstep : rackUsers ([] ++ tr) e := hp
    have hrun' := hrun.step e hstep he
    have hgrows : ∀ x ∈ r.driver.ended, x ∈ (rack.next r e).1.driver.ended := by
      have hnext := (run_racked hbits hrun').run
      rw [driverPart_snoc] at hnext
      obtain ⟨s₁, h₁, h₂⟩ := hnext.split
      obtain rfl := h₁.functional (run_racked hbits hrun).run
      exact path_ended h₂
    have hold := (ih name).grow hgrows
    cases e with
    | control c =>
      show Client.Right _ (renewed r.clients (c, .control (controlNext r.driver.ctrl c).2) name)
      by_cases hmade : MakesDevice name (c, (controlNext r.driver.ctrl c).2)
      · rw [renewed_made _ hmade]
        exact ⟨rfl, fun p hp => by cases hp⟩
      · rw [renewed_other _ hmade]
        exact hold
    | submit n bio data new =>
      show Client.Right _ (Function.update r.clients n _ name)
      by_cases hname : name = n
      · subst hname
        rw [Function.update_self]
        exact hold.more _
      · rw [Function.update_of_ne hname]
        exact hold
    | scribble ps bytes => exact hold
    | tick => exact hold
    | client n =>
      by_cases hname : name = n
      · subst hname
        have hafter : (name, (Node.tunnel, 0)) ∈ (ctrlHist (controlPart (driverPart
            (tr ++ [(.client name, (rack.next r (.client name)).2)])))).handles := by
          rw [driverPart_snoc, client_controls]
          exact hp
        obtain ⟨d, -, -, t, fin, rest, hs⟩ := hosted_of_handle hbits hrun' hafter
        exact ⟨hs.right.1, hs.right.2⟩
      · rw [client_kept r hname]
        exact hold

/-! ## Every bio has its turn -/

/-- The calls of the client of a device. -/
def isClient (name : DiskName) : RackEvent → Bool
  | .client n => n = name
  | _ => false

/-- **Every bio has its turn.**  Let a bio be the `i`-th that a device accepted since it was made, and
let anything happen then, short of making the device anew: others submit, take and complete, devices
come and go, the client sleeps.  Once its client has made four calls for it and for each bio before
it that was not completed yet, the bio is completed, and ended with status 0. -/
theorem every_bio_served (hbits : bitsPerLong = 64)
    (hrun : Run rack rackUsers (Rack.start mem stores) tr r)
    (hpath : Path (staying name) rackUsers tr r tr' r') {i : Nat} {p : Loaded}
    (hi : (r.clients name).accepted[i]? = some p)
    (hcalls : 4 * (i + 1) ≤
      4 * (r.clients name).done.length + tr'.countP fun e => isClient name e.1) :
    (∃ data, (r'.clients name).done[i]? = some (p.1, data)) ∧ (p.1, 0) ∈ r'.driver.ended := by
  obtain ⟨hlt, hat⟩ := List.getElem?_eq_some_iff.mp hi
  let I := fun T r₁ => Run rack rackUsers (Rack.start mem stores) T r₁ ∧
    Later (r.clients name) (r₁.clients name)
  have hlater : ∀ T r₁ e, I T r₁ → rackUsers T e → ¬ Remakes name r₁ e →
      Later (r₁.clients name) ((rack.next r₁ e).1.clients name) :=
    fun T r₁ e h hp hsame => client_later hbits h.1 hp hsame
  have hkeeps : ∀ T r₁ e, I T r₁ → rackUsers T e → (staying name).enabled r₁ e →
      I (T ++ [(e, ((staying name).next r₁ e).2)]) ((staying name).next r₁ e).1 := by
    intro T r₁ e h hp he
    have hstep : rackUsers ([] ++ T) e := hp
    exact ⟨h.1.step e hstep he.1, h.2.trans (hlater T r₁ e h hp he.2)⟩
  -- a client with a bio left does not sleep
  have hturn : ∀ T r₁ e, I T r₁ → rackUsers T e → isClient name e = true →
      (r₁.clients name).turns < 4 * (i + 1) →
      (r₁.clients name).turns < (((staying name).next r₁ e).1.clients name).turns := by
    intro T r₁ e h hp hclient hbehind
    cases e with
    | client n =>
      obtain rfl := of_decide_eq_true hclient
      refine (client_turn hbits h.1 hp).2 ?_
      obtain ⟨more, hmore⟩ := h.2.accepted
      rw [hmore, List.length_append]
      unfold Client.turns at hbehind
      omega
    | _ => cases hclient
  have hclimbs := hpath.climbs I (fun r₁ => (r₁.clients name).turns) (isClient name) (4 * (i + 1))
    ⟨hrun, .refl _⟩ hkeeps (fun T r₁ e h hp he => (hlater T r₁ e h hp he.2).turns)
    fun T r₁ e h hp _ => hturn T r₁ e h hp
  have hend := hpath.invariant I ⟨hrun, .refl _⟩ hkeeps
  have hdone : i < (r'.clients name).done.length := by
    have hturns : 4 * (i + 1) ≤ (r'.clients name).turns := by
      refine Nat.le_trans (Nat.le_min.mpr ⟨Nat.le_refl _, ?_⟩) hclimbs
      unfold Client.turns
      omega
    have hle := (r'.clients name).phase.turns_le
    unfold Client.turns at hturns
    omega
  have hright := run_right hbits hend.1 name
  obtain ⟨more, hmore⟩ := hend.2.accepted
  have hbio : ((r'.clients name).done.map Prod.fst)[i]? = some p.1 := by
    rw [hright.done, hmore, List.getElem?_map, List.getElem?_take_of_lt hdone,
      List.getElem?_append_left hlt, hi]
    rfl
  rw [List.getElem?_map] at hbio
  obtain ⟨q, hq, hsame⟩ := Option.map_eq_some_iff.mp hbio
  rw [← hsame]
  exact ⟨⟨q.2, hq⟩, hright.ended q (List.mem_of_getElem? hq)⟩

end

section
attribute [local instance] linux32

/-- Four calls of the client of the second device, and one of another. -/
def sampleTurns : List RackEvent :=
  [.client otherName, .client otherName, .client sampleName, .client otherName, .client otherName]

/-- The write has had its four calls. -/
theorem every_bio_served_sample :
    (sampleWrite, 0) ∈ (exec (staying otherName)
      (exec rack (Rack.start (fun _ => 0) fun _ _ => 0) sampleLoaded) sampleTurns).driver.ended := by
  have hstart : Path (staying otherName) rackUsers
      (traceOf rack (Rack.start (fun _ => 0) fun _ _ => 0) sampleLoaded)
      (exec rack (Rack.start (fun _ => 0) fun _ _ => 0) sampleLoaded) [] _ := .refl
  have hread := hstart.step (RackEvent.client otherName) (by decide +kernel) ⟨trivial, id⟩
  have hset := hread.step (RackEvent.client otherName) (by decide +kernel) ⟨trivial, id⟩
  have hsleep := hset.step (RackEvent.client sampleName) (by decide +kernel) ⟨trivial, id⟩
  have hget := hsleep.step (RackEvent.client otherName) (by decide +kernel) ⟨trivial, id⟩
  have hcomplete := hget.step (RackEvent.client otherName) (by decide +kernel) ⟨trivial, id⟩
  have haccepted : ((exec rack (Rack.start (fun _ => 0) fun _ _ => 0) sampleLoaded).clients
      otherName).accepted[0]? = some (sampleWrite, List.replicate 512 7) := by decide +kernel
  exact (every_bio_served rfl sampleLoaded_run hcomplete haccepted (by decide +kernel)).2

end

end BDTun
