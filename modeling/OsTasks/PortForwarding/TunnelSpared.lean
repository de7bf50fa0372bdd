import OsTasks.PortForwarding.ServedOnce
import OsTasks.PortForwarding.TunnelUpdate

/-!
# The id of the tunnel

The tunnel has the id `0`, and no command is queued and no frame is sent for this id. So an endpoint
whose peer does not send such a command keeps the entry of its tunnel.

## Main definitions

* `Spared`: the tunnel is there, and no queued command is for its id.

## Main results

* `Spared.update`: an update keeps this, if the command that it takes is not for the id `0`.
-/

namespace OsTasks.PortForwarding

/-- The tunnel is there, and no queued command is for its id. -/
structure Spared (c : Controller) : Prop extends TunnelInv c where
  queue : ∀ command ∈ c.pump.cmdQueue.contents, command.arg ≠ 0

variable {c c' : Controller} {conns : Conns} {tunnel target : Slot} {events : List PumpEvent}

theorem Spared.poll {env : PollEnv} {m : Manager} {cause : CloseCause} (h : Spared c)
    (hpoll : cmPoll env c.manager = .ok (m, cause)) : Spared { c with manager := m } :=
  ⟨h.toTunnelInv.poll hpoll, h.queue⟩

theorem Spared.sort (hwf : WellFormed c) (h : Spared c) : Spared c.sort :=
  ⟨h.toTunnelInv.sort hwf, h.queue⟩

theorem Spared.moved {id : ℤ} (h : Spared c) (hmoved : SlotsMoved id c.slots c'.slots)
    (hfree : c'.freeIds = c.freeIds)
    (hqueue : ∀ command ∈ c'.pump.cmdQueue.contents, command ∈ c.pump.cmdQueue.contents) :
    Spared c' :=
  ⟨h.toTunnelInv.moved hmoved hfree, fun _ hcommand => h.queue _ (hqueue _ hcommand)⟩

/-- Announcements are about connections with other ids. -/
theorem Spared.announceRun (hwf : WellFormed c) (h : Spared c) (hrun : AnnounceRun c c') :
    Spared c' := by
  refine ⟨h.toTunnelInv.announceRun hwf hrun, ?_⟩
  induction hrun with
  | refl => exact h.queue
  | tail hrun hlast ih =>
    cases hlast with
    | @announce s cmd conn q hs hid _ _ hq =>
      have hle := ((AnnounceRun.wellFormed hrun hwf).slotOk s hs).id_le
      intro command hcommand
      change command ∈ q.contents at hcommand
      rw [contents_cmdqEnqueue hq, List.mem_append, List.mem_singleton] at hcommand
      rcases hcommand with hcommand | rfl
      · exact ih command hcommand
      · intro hzero
        have hbyte := toNat_toByte (i := s.conn.id) (by omega) (by omega)
        rw [show toByte s.conn.id = 0 from hzero] at hbyte
        simp at hbyte
        omega

/-! ### Commands -/

theorem mem_sendOrWarn {c : Controller} {answer command : Command}
    (h : command ∈ (sendOrWarn c answer).pump.cmdQueue.contents) :
    command ∈ c.pump.cmdQueue.contents ∨ command = answer := by
  unfold sendOrWarn sendCommand at h
  cases hq : cmdqEnqueue c.pump.cmdQueue answer with
  | none =>
    rw [hq] at h
    exact .inl h
  | some q =>
    rw [hq] at h
    change command ∈ q.contents at h
    rw [contents_cmdqEnqueue hq] at h
    simpa using h

/-- A command is answered for its own id. -/
theorem queue_onCommand (env : ConnectEnv) (c : Controller) (command : Command) :
    ∀ answer ∈ (onCommand env c command).pump.cmdQueue.contents,
      answer ∈ c.pump.cmdQueue.contents ∨ answer.arg = command.arg := by
  intro answer hanswer
  cases htarget : commandTarget c command with
  | some s =>
    rw [onCommand_of_some htarget] at hanswer
    exact .inl hanswer
  | none =>
    by_cases hcmd : command.cmd = cmdNew
    · rw [onCommand_new htarget hcmd] at hanswer
      rcases mem_sendOrWarn hanswer with hqueued | rfl
      · exact .inl hqueued
      · exact .inr rfl
    · rw [onCommand_of_none htarget hcmd] at hanswer
      exact .inl hanswer

/-- A command for another id leaves the tunnel alone. -/
theorem TunnelInv.onCommand (hwf : WellFormed c) (h : TunnelInv c) (env : ConnectEnv)
    {command : Command} (harg : command.arg ≠ 0) : TunnelInv (onCommand env c command) := by
  have hne : (command.arg.toNat : ℤ) ≠ 0 := fun hzero =>
    harg (UInt8.toNat_inj.mp (Int.natCast_eq_zero.mp hzero))
  obtain ⟨opened, heff⟩ := onCommand_effect env c command
  rcases heff.slots with ⟨s, htarget, -, hslots, -, hfree⟩ |
    ⟨htarget, hfree, ⟨-, hslots, -⟩ | ⟨-, -, s, hslots, hfresh, -⟩⟩
  · obtain ⟨hs, hid⟩ := commandTarget_eq_some htarget
    refine h.map hslots (fun t _ => ref_modifySlot _ _ t)
      (fun t ht => id_modifySlot hwf.nodup hs (id_commandChange command.cmd s.conn) ht)
      (fun t ht htid hdel => ?_) (hfree ▸ not_mem_giveBack h (hid ▸ hne))
    rwa [modifySlot_of_ne]
    intro href
    rw [eq_of_ref_eq hwf.nodup ht hs href, hid] at htid
    exact hne htid
  · exact ⟨hslots ▸ h.entry, hslots ▸ h.only, hfree ▸ h.free⟩
  · obtain ⟨t, ht, hentry⟩ := h.entry
    refine ⟨⟨t, hslots ▸ List.mem_append_left _ ht, hentry⟩, fun u hu huid => ?_, hfree ▸ h.free⟩
    rw [hslots, List.mem_append, List.mem_singleton] at hu
    rcases hu with hu | rfl
    · exact h.only u hu huid
    · exact absurd (hfresh.id.symm.trans huid) hne

/-! ### The pump -/

/-- The state is spared, and the events up to it send nothing. -/
def SparedSilent (c c' : Controller) : Prop :=
  Spared c' ∧ ∃ events, c'.trace = events ++ c.trace ∧ sentPackets events = []

theorem Spared.handleFrame (hwf : WellFormed c) (h : Spared c) (env : ConnectEnv) (tag : ℕ)
    (tunnel : Slot) (cmd : UInt8) {arg : UInt8} (harg : arg ≠ 0) :
    SparedSilent c (c.handleFrame (onTaggedCommand tag env) tunnel cmd arg) := by
  let c₁ := (c.modify tunnel.ref fun conn =>
    { conn with inBuf := bufAdvanceReadPtr tunnel.conn.inBuf 3 }).note (.received cmd arg)
  have hmoved : SlotsMoved 0 c.slots c₁.slots :=
    slotsMoved_inBuf 0 c.slots tunnel.ref fun _ => bufAdvanceReadPtr tunnel.conn.inBuf 3
  have hwf₁ : WellFormed c₁ := hwf.moved hmoved rfl rfl hwf.sendingTo
  have h₁ : Spared c₁ := h.moved hmoved rfl fun _ => id
  have h₂ : Spared (onCommand env c₁ ⟨cmd, arg, tag⟩) :=
    ⟨h₁.toTunnelInv.onCommand hwf₁ env harg, fun answer hanswer =>
      (queue_onCommand env c₁ _ answer hanswer).elim (h₁.queue answer) fun heq => heq ▸ harg⟩
  obtain ⟨opened, heff⟩ := onCommand_effect env c₁ ⟨cmd, arg, tag⟩
  exact ⟨h₂.moved (slotsMoved_inBuf 0 _ tunnel.ref fun buf => bufAdvanceReadPtr buf 2) rfl
    fun _ => id, [.handled _ _ _ opened, .received cmd arg], heff.trace, rfl⟩

theorem Spared.deliver (hnd : (c.slots.map Slot.ref).Nodup) (h : Spared c) (env : PumpEnv)
    (id : ℕ) (tunnel : Slot) (htarget : target ∈ c.slots) :
    SparedSilent c (c.deliver env id tunnel target) :=
  ⟨h.moved (slotsMoved_deliver hnd env id tunnel htarget) rfl fun _ hcommand => hcommand,
    [.delivered _ _ _ _], rfl, rfl⟩

theorem Spared.startsFrame {env : PumpEnv} {tag : ℕ} {start : Option FrameStart}
    (hwf : WellFormed c) (h : Spared c)
    (hstarts : StartsFrame (onTaggedCommand tag env.connect) env conns c start c')
    (hother : ∀ cmd, start ≠ some (.command cmd 0)) : SparedSilent c c' := by
  cases hstarts with
  | nothing => exact ⟨h, [], rfl, rfl⟩
  | @command _ cmd =>
    exact h.handleFrame hwf env.connect tag _ _ fun hzero => hother cmd (by rw [hzero])
  | data _ _ _ htarget => exact h.deliver hwf.nodup env _ _ (lookup_eq_some htarget).1

/-- Receiving. -/
theorem Spared.intake {env : PumpEnv} {tag : ℕ} {t : Taking} (hwf : WellFormed c) (h : Spared c)
    (hconns : ConnsOk conns c.slots)
    (hintake : Intake (onTaggedCommand tag env.connect) env conns c t c')
    (hother : ∀ cmd, t.start ≠ some (.command cmd 0)) : SparedSilent c c' := by
  cases hintake with
  | nothing => exact ⟨h, [], rfl, rfl⟩
  | starts _ hstarts => exact h.startsFrame hwf hstarts hother
  | goesOn _ _ _ _ htarget => exact h.deliver hwf.nodup env _ _ (lookup_eq_some htarget).1
  | @ends tunnel _ _ _ _ _ _ hid hsend htarget _ hstarts =>
    have hwf₁ := (hwf.deliver hconns env tunnel hid htarget (.inr hsend)).1
    obtain ⟨h₁, events, htrace, hnone⟩ := h.deliver hwf.nodup env _ _ (lookup_eq_some htarget).1
    obtain ⟨h₂, later, htrace', hnone'⟩ := h₁.startsFrame hwf₁ hstarts hother
    refine ⟨h₂, later ++ events, by rw [htrace', htrace, List.append_assoc], ?_⟩
    rw [sentPackets_append, hnone, hnone']
    rfl

/-- Sending. -/
theorem Spared.dispatches (h : Spared c) (hsent : SlotsSent c.slots c'.slots)
    (hdispatches : Dispatches c c' events) :
    Spared c' ∧ ∀ p ∈ sentPackets events, p.start.id ≠ 0 := by
  obtain ⟨g, hslots, hg⟩ := hsent
  refine ⟨⟨h.toTunnelInv.map hslots (fun s hs => (hg s hs).ref) (fun s hs => (hg s hs).id)
      (fun s hs _ hdel => by rw [(hg s hs).state, hdel]) (hdispatches.freeIds ▸ h.free),
    fun command hcommand => h.queue _ (hdispatches.queue _ hcommand)⟩, fun p hp hzero => ?_⟩
  rcases hdispatches.packets p hp with ⟨command, hcommand, rfl⟩ | ⟨id, hid, hstart⟩
  · exact h.queue command hcommand (UInt8.toNat_inj.mp hzero)
  · rw [hstart] at hzero
    exact hid (UInt8.toNat_inj.mp hzero)

/-- **An update spares the tunnel**, if the command that it takes is not for the id `0`. -/
theorem Spared.update {env : Env} {tag : ℕ} (hwf : WellFormed c) (h : Spared c)
    (hc : updateFor tag env c = .ok (c', .none))
    (hother : ∀ cmd, (env.taking c).start ≠ some (.command cmd 0)) :
    Spared c' ∧
      ∃ events, c'.trace = events ++ c.trace ∧ ∀ p ∈ sentPackets events, p.start.id ≠ 0 := by
  cases updateFor_parts hwf hc with
  | waits hpoll hrun =>
    have hwf₁ := WellFormed.sort (hwf.poll hpoll)
    obtain ⟨events, htrace, hqueues, -⟩ := announceRun_queues hwf₁ hrun
    refine ⟨((h.poll hpoll).sort (hwf.poll hpoll)).announceRun hwf₁ hrun, events, htrace, ?_⟩
    rw [sentPackets_of_queues hqueues]
    simp
  | pumps hpoll hrun hconns _ hintake =>
    have hwf₁ := WellFormed.sort (hwf.poll hpoll)
    have hwf₂ := hrun.wellFormed hwf₁
    obtain ⟨before, htrace, hqueues, -⟩ := announceRun_queues hwf₁ hrun
    have h₂ := ((h.poll hpoll).sort (hwf.poll hpoll)).announceRun hwf₁ hrun
    obtain ⟨h₃, events, htrace', hnone⟩ := h₂.intake hwf₂ hconns hintake hother
    have hready : Pumping (fun _ => 0) 0 _ _ := ⟨hwf₂.pumpReady hconns, fun _ _ _ => rfl⟩
    have hready₃ := (conveys_intake (fun _ _ _ _ => rfl) hready hintake).2
    obtain ⟨later, hdispatches⟩ := sendToTunnel_dispatches hready₃.nodup hready₃.entries
    obtain ⟨h₄, hpackets⟩ := h₃.dispatches
      (sendToTunnel_sent hready₃.nodup hready₃.entries).1 hdispatches
    refine ⟨h₄, later ++ (events ++ before), ?_, ?_⟩
    · rw [hdispatches.trace, htrace', htrace, List.append_assoc, List.append_assoc]
      rfl
    · rw [sentPackets_append, sentPackets_append, sentPackets_of_queues hqueues, hnone]
      exact hpackets

end OsTasks.PortForwarding
