import OsTasks.PortForwarding.Incarnations
import OsTasks.PortForwarding.PumpTraffic
import OsTasks.PortForwarding.TunnelEntry

/-!
# The bytes that an update moves

The part of an update between `cm_poll` and the pump moves no bytes, so the accounts of `cm_poll`
and of the pump make up those of the update.

## Main definitions

* `UpdateParts`: the parts of an update.
* `Balanced`: the accounts of an update.

## Main results

* `updateFor_parts`: an update has these parts.
* `conveys_sort`, `conveys_announceRun`: the part of an update between `cm_poll` and the pump.
* `balanced_updateFor`: an update keeps the accounts, as long as no buffer wraps.
-/

namespace OsTasks.PortForwarding

variable {key : Slot → ℕ} {kt : ℕ} {c c' : Controller} {conns : Conns}

/-! ### Between `cm_poll` and the pump -/

theorem Announces.buffers {conn conn' : Connection} {cmd : UInt8} (h : Announces conn cmd conn') :
    conn'.inBuf = conn.inBuf ∧ conn'.outBuf = conn.outBuf := by
  cases h <;> exact ⟨rfl, rfl⟩

theorem Assigned.keeps {stack : List ℤ} {s s' : Slot} (h : Assigned stack s s') :
    s'.ref = s.ref ∧ s'.inc = s.inc ∧ s'.conn.inBuf = s.conn.inBuf ∧
      s'.conn.outBuf = s.conn.outBuf := by
  obtain rfl | ⟨-, id, -, rfl⟩ := h <;> exact ⟨rfl, rfl, rfl, rfl⟩

/-- Sorting moves nothing. -/
theorem conveys_sort (hkey : IsKey key) (hwf : WellFormed c) : Conveys key kt c c.sort := by
  refine conveys_of_silent silent_nil (List.append_nil _).symm rfl
    (hwf.sort_assigns.forall₂.1.imp fun s s' hs => ?_) (by simp)
  obtain ⟨href, hinc, hin, hout⟩ := hs.keeps
  exact ⟨hkey _ _ href hinc, fun _ => hin, hout⟩

/-- An announcement moves nothing. -/
theorem conveys_announceStep (hkey : IsKey key) (hwf : WellFormed c) (h : AnnounceStep c c') :
    Conveys key kt c c' := by
  cases h with
  | @announce s cmd conn q hs hid hdel hann hq =>
    refine conveys_of_silent (silent_singleton (e := .queued s cmd) rfl fun _ => ⟨rfl, rfl⟩)
      (List.append_nil _).symm rfl ?_ (by simp)
    rw [slots_announce, List.forall₂_map_right_iff, List.forall₂_same]
    intro t ht
    refine ⟨hkey _ _ (ref_modifySlot ..) (inc_modifySlot ..), ?_⟩
    by_cases href : t.ref = s.ref
    · rw [eq_of_ref_eq hwf.nodup ht hs href, modifySlot_self]
      exact ⟨fun _ => hann.buffers.1, hann.buffers.2⟩
    · rw [modifySlot_of_ne href]
      exact ⟨fun _ => rfl, rfl⟩

/-- Announcements move nothing. -/
theorem conveys_announceRun (hkey : IsKey key) (hwf : WellFormed c) (h : AnnounceRun c c') :
    Conveys key kt c c' := by
  induction h with
  | refl => exact .of_same rfl rfl
  | tail hrun hlast ih =>
    exact ih.trans (conveys_announceStep hkey (AnnounceRun.wellFormed hrun hwf) hlast)

/-! ### The update -/

/-- The accounts of an update: of every connection, and of the output of the tunnel, which has the
key `kt`. -/
structure Balanced (key : Slot → ℕ) (kt : ℕ) (env : PollEnv) (c c' : Controller)
    (events : List PumpEvent) : Prop where
  trace : c'.trace = events ++ c.trace
  input : ∀ k, k ≠ kt → Passes (inputAt key (undeleted c.slots) k) (readAt key env c.slots k)
    (encodedAt key events k) (inputAt key c'.slots k)
  output : ∀ k, k ≠ kt → Passes (outputAt key (undeleted c.slots) k) (deliveredAt key events k)
    (writtenAt key env c.slots k) (outputAt key c'.slots k)
  tunnel : Passes (outputAt key (undeleted c.slots) kt) (frameBytes (sentFrames events))
    (writtenAt key env c.slots kt) (outputAt key c'.slots kt)

/-- The accounts of `cm_poll`, and those of what follows it. -/
theorem Balanced.of_flow {env : PollEnv} {m : Manager} {events : List PumpEvent} (hkey : IsKey key)
    (hnd : (c.slots.map key).Nodup) (hin : ∀ s ∈ c.slots, s.conn.inBuf.CanStore)
    (hpoll : cmPoll env c.manager = .ok (m, .none)) (htrace : c'.trace = events ++ c.trace)
    (hflow : Flow key kt m.slots c'.slots events) : Balanced key kt env c c' events where
  trace := htrace
  input k hk := by
    have := (cmPoll_passes hkey hnd hin hpoll k).1.trans (hflow.input k hk)
    rwa [List.append_nil, List.nil_append] at this
  output k hk := by
    have := (cmPoll_passes hkey hnd hin hpoll k).2.trans (hflow.output k hk)
    rwa [List.append_nil, List.nil_append] at this
  tunnel := by
    have := (cmPoll_passes hkey hnd hin hpoll kt).2.trans hflow.tunnel
    rwa [List.append_nil, List.nil_append] at this

/-- A connection was there before, or its address is new. -/
theorem StepRun.origin (hwf : WellFormed c) (hrun : StepRun c c') :
    c.manager.nextRef ≤ c'.manager.nextRef ∧ ∀ s' ∈ c'.slots,
      (∃ s ∈ c.slots, s'.ref = s.ref ∧ s'.inc = s.inc) ∨ c.manager.nextRef ≤ s'.ref := by
  induction hrun with
  | refl => exact ⟨Nat.le_refl _, fun s hs => .inl ⟨s, hs, rfl, rfl⟩⟩
  | tail hrun hlast ih =>
    obtain ⟨hnext, hslots⟩ := hlast.evolves (StepRun.wellFormed hrun hwf)
    refine ⟨ih.1.trans hnext, fun s' hs' => ?_⟩
    rcases hslots s' hs' with ⟨s, hs, hevolves⟩ | ⟨hfresh, -⟩
    · rw [hevolves.ref, hevolves.inc]
      exact ih.2 s hs
    · rw [hfresh.ref]
      exact .inr ih.1

theorem TunnelInv.announceRun (hwf : WellFormed c) (h : TunnelInv c) (hrun : AnnounceRun c c') :
    TunnelInv c' := by
  induction hrun with
  | refl => exact h
  | tail hrun hlast ih =>
    cases hlast with
    | announce hs hid _ hann => exact ih.announce (AnnounceRun.wellFormed hrun hwf) hs hid hann _

/-- What an update does after `cm_poll` is a sequence of steps. -/
theorem update_polled {env : Env} (hwf : WellFormed c) (hc : update env c = .ok (c', .none)) :
    ∃ m, cmPoll env.poll c.manager = .ok (m, .none) ∧ StepRun { c with manager := m } c' := by
  have hrun {m : Manager} {c₁ : Controller} (hpoll : cmPoll env.poll c.manager = .ok (m, .none))
      (hannounced : AnnounceRun (Controller.sort { c with manager := m }) c₁) :
      StepRun { c with manager := m } c₁ :=
    .head (.sort (delete_of_cmPoll hpoll)) hannounced.stepRun
  rcases update_cases hc with hbefore | ⟨c₁, conns, hbefore, hpump, -⟩
  · obtain ⟨m, hpoll, hannounced⟩ := beforeTransfer_polled hwf hbefore (.inl rfl)
    exact ⟨m, hpoll, hrun hpoll hannounced⟩
  · obtain ⟨m, hpoll, hannounced⟩ := beforeTransfer_polled hwf hbefore (.inr ⟨conns, rfl⟩)
    obtain ⟨hbeforeRun, hconns⟩ := beforeTransfer_run hwf hbefore
    exact ⟨m, hpoll, (hrun hpoll hannounced).trans
      (pumpTransfer_run (StepRun.wellFormed hbeforeRun hwf) (hconns conns rfl) hpump)⟩

/-- The parts of an update that goes on: polling, sorting and announcing, and then the two halves of
`pump_transfer`, if the pump is entered. -/
inductive UpdateParts (tag : ℕ) (env : Env) (c : Controller) : Controller → Prop
  | waits {m : Manager} {c' : Controller} (hpoll : cmPoll env.poll c.manager = .ok (m, .none))
      (hrun : AnnounceRun (Controller.sort { c with manager := m }) c')
      (htaking : env.taking c = {}) : UpdateParts tag env c c'
  | pumps {m : Manager} {c₁ c₂ : Controller} {conns : Conns}
      (hpoll : cmPoll env.poll c.manager = .ok (m, .none))
      (hrun : AnnounceRun (Controller.sort { c with manager := m }) c₁)
      (hconns : ConnsOk conns c₁.slots) (hentry : pumpEntry env.poll c = some (c₁, conns))
      (hintake : Intake (onTaggedCommand tag env.pump.connect) env.pump conns c₁ (env.taking c)
        c₂) :
      UpdateParts tag env c (sendToTunnel conns c₂)

/-- **An update has these parts.** -/
theorem updateFor_parts {env : Env} {tag : ℕ} (hwf : WellFormed c)
    (hc : updateFor tag env c = .ok (c', .none)) : UpdateParts tag env c c' := by
  rw [updateFor_eq] at hc
  rcases hbefore : beforeTransfer env.poll c with fault | ⟨c₁, cause | conns⟩ <;> rw [hbefore] at hc
  · cases hc
  · obtain ⟨rfl, rfl⟩ := Prod.mk.inj (Except.ok.inj hc)
    obtain ⟨m, hpoll, hrun⟩ := beforeTransfer_polled hwf hbefore (.inl rfl)
    refine .waits hpoll hrun ?_
    unfold Env.taking pumpEntry
    rw [hbefore]
    rfl
  · dsimp only at hc
    obtain ⟨m, hpoll, hrun⟩ := beforeTransfer_polled hwf hbefore (.inr ⟨conns, rfl⟩)
    have hconns := (beforeTransfer_run hwf hbefore).2 conns rfl
    have hentry : pumpEntry env.poll c = some (c₁, conns) := by
      unfold pumpEntry
      rw [hbefore]
    have htaking : env.taking c = taking env.pump conns c₁ := by
      unfold Env.taking
      rw [hentry]
      rfl
    cases hpump : pumpTransfer (onTaggedCommand tag env.pump.connect) env.pump conns c₁ with
    | error fault =>
      rw [hpump] at hc
      cases hc
    | ok c₂ =>
      rw [hpump] at hc
      obtain ⟨rfl, -⟩ := Prod.mk.inj (Except.ok.inj hc)
      obtain ⟨c₃, hrecv, rfl⟩ := exists_of_pumpTransfer hpump
      have hwf₁ : WellFormed c₁ := hrun.wellFormed (WellFormed.sort (hwf.poll hpoll))
      exact .pumps hpoll hrun hconns hentry
        (htaking ▸ recvFromTunnel_intake (hwf₁.sendingTo.imp id And.left) hrecv)

/-- The tunnel has its key when the pump is entered. -/
theorem pumping_of_entry (hkey : IsKey key) (hwf : WellFormed c) (htunnel : TunnelInv c)
    (hkt : ∀ s ∈ c.slots, s.ref = 0 → key s = kt) {env : PollEnv} {m : Manager}
    (hpoll : cmPoll env c.manager = .ok (m, .none))
    (hrun : AnnounceRun (Controller.sort { c with manager := m }) c')
    (hconns : ConnsOk conns c'.slots) : Pumping key kt conns c' := by
  have hwf₁ : WellFormed { c with manager := m } := hwf.poll hpoll
  have htunnel' := ((htunnel.poll hpoll).sort hwf₁).announceRun hwf₁.sort hrun
  have hsteps : StepRun c c' :=
    .head (.poll hpoll) (.head (.sort (delete_of_cmPoll hpoll)) hrun.stepRun)
  have hwf' := StepRun.wellFormed hsteps hwf
  refine ⟨hwf'.pumpReady hconns, fun s' hs' hconn => ?_⟩
  obtain ⟨t, ht, href, hid⟩ := hconns.entriesAt _ _ hconn
  obtain rfl := eq_of_ref_eq hwf'.nodup ht hs' href
  have hzero : t.ref = 0 := htunnel'.only t ht hid
  rcases (hsteps.origin hwf).2 t ht with ⟨s, hs, hsame, hinc⟩ | hnew
  · exact (hkey _ _ hsame hinc).trans (hkt s hs (hsame.symm.trans hzero))
  · obtain ⟨s, hs, -⟩ := htunnel.entry
    have := hwf.allocated s hs
    omega

/-- The part of an update between `cm_poll` and the pump moves nothing. -/
theorem conveys_announced (hkey : IsKey key) (hwf : WellFormed c)
    (hrun : AnnounceRun c.sort c') : Conveys key kt c c' :=
  (conveys_sort hkey hwf).trans (conveys_announceRun hkey hwf.sort hrun)

/-- **An update keeps the accounts**, as long as no buffer wraps. -/
theorem balanced_updateFor {env : Env} {tag : ℕ} (hkey : IsKey key) (hwf : WellFormed c)
    (htunnel : TunnelInv c) (hkt : ∀ s ∈ c.slots, s.ref = 0 → key s = kt)
    (hnd : (c.slots.map key).Nodup) (hin : ∀ s ∈ c.slots, s.conn.inBuf.CanStore)
    (hc : updateFor tag env c = .ok (c', .none)) (hstraight : Straight key c'.slots) :
    ∃ events, Balanced key kt env.poll c c' events := by
  cases updateFor_parts hwf hc with
  | waits hpoll hrun =>
    obtain ⟨-, events, htrace, hflow⟩ := conveys_announced hkey (hwf.poll hpoll) hrun hstraight
    exact ⟨events, .of_flow hkey hnd hin hpoll htrace hflow⟩
  | pumps hpoll hrun hconns _ hintake =>
    have hready := pumping_of_entry hkey hwf htunnel hkt hpoll hrun hconns
    obtain ⟨hreceived, hready'⟩ := conveys_intake hkey hready hintake
    have hconveys := (conveys_announced hkey (hwf.poll hpoll) hrun).trans hreceived
    obtain ⟨-, events, htrace, hflow⟩ :=
      (hconveys.trans (conveys_sendToTunnel hkey hready')) hstraight
    exact ⟨events, .of_flow hkey hnd hin hpoll htrace hflow⟩

end OsTasks.PortForwarding
