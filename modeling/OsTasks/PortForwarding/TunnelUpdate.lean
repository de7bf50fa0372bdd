import OsTasks.PortForwarding.Histories
import OsTasks.PortForwarding.TunnelStream

/-!
# The tunnel in an update

An update reads bytes from the tunnel, takes frames from those that have arrived, and appends
frames to the output of the tunnel.

## Main definitions

* `Dispatches`: what sending does.

## Main results

* `sendToTunnel_dispatches`: what is sent was queued, or is data.
* `updateFor_takes`: what an update takes from the stream.
-/

namespace OsTasks.PortForwarding

variable {c c' : Controller} {conns : Conns} {more : List UInt8}

/-! ### An update -/

variable {frames frames' : List Frame} {events before later : List PumpEvent}

/-- Events of announcing and of sending deliver nothing. -/
theorem deliveredAt_of_forall (h : ∀ e ∈ events, e.Queues ∨ e.Sends) (key : Slot → ℕ) (k : ℕ) :
    deliveredAt key events k = [] := by
  unfold deliveredAt
  rw [List.flatMap_eq_nil_iff]
  intro e he
  rcases h e (List.mem_reverse.mp he) with ⟨t, cmd, rfl⟩ | hsends
  · rfl
  · cases hsends <;> rfl

/-- What comes before and after the call takes nothing. -/
theorem Takes.between {c₀ c₁ : Controller} {t : Taking}
    (h : Takes c c' t more frames frames' events)
    (hbefore : c.trace = before ++ c₀.trace) (hlater : c₁.trace = later ++ c'.trace)
    (hquiet : ∀ e, e ∈ before ∨ e ∈ later → e.Queues ∨ e.Sends)
    (hsend : c₁.pump.sendingTo = c'.pump.sendingTo) (hin : c₁.tunnelInput = c'.tunnelInput) :
    Takes c₀ c₁ t more frames frames' (later ++ (events ++ before)) where
  trace := by rw [hlater, h.trace, hbefore, List.append_assoc, List.append_assoc]
  carries := by rw [hsend, hin]; exact h.carries
  left := hsend ▸ h.left
  payload htags tag := by
    rw [deliveredTags_append, deliveredTags_append,
      deliveredTags_of_forall fun e he => hquiet e (.inl he),
      deliveredTags_of_forall fun e he => hquiet e (.inr he), List.append_nil] at htags
    rw [deliveredAt_append, deliveredAt_append,
      deliveredAt_of_forall fun e he => hquiet e (.inl he),
      deliveredAt_of_forall fun e he => hquiet e (.inr he), List.append_nil]
    exact h.payload htags tag

/-- Announcements leave the tunnel's input as it is. -/
theorem announceRun_queues (hwf : WellFormed c) (hrun : AnnounceRun c c') :
    ∃ events, c'.trace = events ++ c.trace ∧ (∀ e ∈ events, e.Queues) ∧
      c'.pump.sendingTo = c.pump.sendingTo ∧ c'.tunnelInput = c.tunnelInput := by
  induction hrun with
  | refl => exact ⟨[], rfl, fun _ he => absurd he List.not_mem_nil, rfl, rfl⟩
  | tail hrun hlast ih =>
    obtain ⟨events, htrace, hqueues, hsend, hin⟩ := ih
    have hwf' := AnnounceRun.wellFormed hrun hwf
    cases hlast with
    | @announce s cmd conn q hs _ _ hann =>
      refine ⟨.queued s cmd :: events, congrArg (List.cons _) htrace,
        List.forall_mem_cons.mpr ⟨⟨s, cmd, rfl⟩, hqueues⟩, hsend, Eq.trans ?_ hin⟩
      refine tunnelInput_of_forall₂ ?_ (List.append_nil _).symm (by simp)
      rw [slots_announce, List.forall₂_map_right_iff, List.forall₂_same]
      refine fun t ht => ⟨ref_modifySlot .., ?_⟩
      by_cases href : t.ref = s.ref
      · rw [eq_of_ref_eq hwf'.nodup ht hs href, modifySlot_self]
        exact hann.buffers.1
      · rw [modifySlot_of_ne href]

/-- What sending does: what is sent was queued, or is data of a connection. -/
structure Dispatches (c c' : Controller) (events : List PumpEvent) : Prop where
  trace : c'.trace = events ++ c.trace
  sends : ∀ e ∈ events, e.Sends
  freeIds : c'.freeIds = c.freeIds
  queue : ∀ command ∈ c'.pump.cmdQueue.contents, command ∈ c.pump.cmdQueue.contents
  packets : ∀ p ∈ sentPackets events,
    (∃ command ∈ c.pump.cmdQueue.contents, p = command.packet) ∨ ∃ id, id ≠ 0 ∧ p.start = .data id

/-- One more event. -/
theorem Dispatches.cons {c'' : Controller} {e : PumpEvent} (h : Dispatches c c' events)
    (htrace : c''.trace = e :: c'.trace) (he : e.Sends) (hfree : c''.freeIds = c'.freeIds)
    (hqueue : ∀ command ∈ c''.pump.cmdQueue.contents, command ∈ c'.pump.cmdQueue.contents)
    (hpacket : ∀ p ∈ e.packet, (∃ command ∈ c'.pump.cmdQueue.contents, p = command.packet) ∨
      ∃ id, id ≠ 0 ∧ p.start = .data id) : Dispatches c c'' (e :: events) where
  trace := htrace.trans (congrArg (List.cons e) h.trace)
  sends := List.forall_mem_cons.mpr ⟨he, h.sends⟩
  freeIds := hfree.trans h.freeIds
  queue command hcommand := h.queue command (hqueue command hcommand)
  packets p hp := by
    rw [sentPackets_cons] at hp
    rcases List.mem_append.mp hp with hp | hp
    · exact h.packets p hp
    · rcases hpacket p (Option.mem_toList.mp hp) with ⟨command, hcommand, heq⟩ | hdata
      · exact .inl ⟨command, h.queue command hcommand, heq⟩
      · exact .inr hdata

/-- **Sending.** -/
theorem sendToTunnel_dispatches (hnd : (c.slots.map Slot.ref).Nodup)
    (hentries : EntriesAt conns c.slots) :
    ∃ events, Dispatches c (sendToTunnel conns c) events := by
  have hfirst {q : CmdQueue} (hqueue : cmdqLength q ≠ 0) : (cmdqDequeue q).1 ∈ q.contents := by
    rw [contents_cmdqDequeue hqueue]
    exact List.mem_cons_self
  have hrest {q : CmdQueue} (hqueue : cmdqLength q ≠ 0) :
      ∀ command ∈ (cmdqDequeue q).2.contents, command ∈ q.contents := by
    intro command hcommand
    rw [contents_cmdqDequeue hqueue]
    exact List.mem_cons_of_mem _ hcommand
  refine sendToTunnel_induction (P := fun c' => ∃ events, Dispatches c c' events) ?_ ?_ ?_ ?_ ?_
    hnd hentries ⟨[], rfl, by simp, rfl, fun _ => id, by simp [sentPackets]⟩
  · rintro c₁ hqueue ⟨events, h⟩
    exact ⟨events, h.trace, h.sends, h.freeIds,
      fun command hcommand => h.queue command (hrest hqueue command hcommand), h.packets⟩
  · rintro c₁ tunnel hqueue ⟨events, h⟩
    refine ⟨_, h.cons rfl (.sent _) rfl (hrest hqueue) fun p hp => .inl ⟨_, hfirst hqueue, ?_⟩⟩
    exact (Option.some.inj hp).symm
  · rintro c₁ hqueue ⟨events, h⟩
    exact ⟨_, h.cons rfl (.dropped _) rfl (hrest hqueue) fun p hp => absurd hp.symm
      (Option.some_ne_none p)⟩
  · rintro c₁ i s tunnel hnd₁ hentries₁ hi hs - - ⟨events, h⟩
    unfold Controller.encodeTo
    dsimp only
    split_ifs
    · exact ⟨events, h.trace, h.sends, h.freeIds, h.queue, h.packets⟩
    · refine ⟨_, h.cons rfl (.encoded _ _) rfl (fun _ => id) fun p hp => .inr
        ⟨toByte s.conn.id, fun hzero => ?_, ?_⟩⟩
      · have hid := hentries₁.id hnd₁ hs
        have hbyte := toNat_toByte (i := s.conn.id) (by omega) (by omega)
        rw [hzero, hid] at hbyte
        simp at hbyte
      · rw [← Option.some.inj hp]
  · rintro c₁ i ⟨events, h⟩
    exact ⟨events, h.trace, h.sends, h.freeIds, h.queue, h.packets⟩

/-- Sorting leaves the tunnel's input as it is. -/
theorem tunnelInput_sort (hwf : WellFormed c) : c.sort.tunnelInput = c.tunnelInput := by
  refine tunnelInput_of_forall₂ (hwf.sort_assigns.forall₂.1.imp fun s s' hs => ?_)
    (List.append_nil _).symm (by simp)
  obtain ⟨href, -, hin, -⟩ := hs.keeps
  exact ⟨href, hin⟩

/-- What is read from the tunnel comes behind its input. -/
theorem tunnelInput_poll {env : PollEnv} {m : Manager} (hwf : WellFormed c) (htunnel : TunnelInv c)
    (hin : ∀ s ∈ c.slots, s.conn.inBuf.CanStore) (hpoll : cmPoll env c.manager = .ok (m, .none)) :
    Controller.tunnelInput { c with manager := m } =
      c.tunnelInput ++ readAt Slot.ref env c.slots 0 := by
  obtain ⟨s, hs, href, -, hdel⟩ := htunnel.entry
  have hpasses := (cmPoll_passes isKey_ref hwf.nodup hin hpoll 0).1
  have hstays : inputAt Slot.ref (undeleted c.slots) 0 = c.tunnelInput := by
    rw [tunnelInput_of_mem hwf.nodup hs href, ← href]
    exact heldAt_of_mem (nodup_undeleted hwf.nodup) (mem_undeleted.mpr ⟨hs, hdel⟩)
  unfold Passes at hpasses
  rw [List.nil_append] at hpasses
  rw [← hstays]
  exact hpasses.symm

/-- Sending leaves the tunnel's input as it is. -/
theorem tunnelInput_sendToTunnel (hnd : (c.slots.map Slot.ref).Nodup)
    (hentries : EntriesAt conns c.slots) (htunnel : conns 0 = some 0) :
    (sendToTunnel conns c).tunnelInput = c.tunnelInput := by
  obtain ⟨s, hs, href, hid⟩ := hentries 0 0 htunnel
  have hsent := (sendToTunnel_sent hnd hentries).1
  have hnd' := hsent.map_ref ▸ hnd
  obtain ⟨g, hslots, hg⟩ := hsent
  have hmem : g s ∈ (sendToTunnel conns c).slots := hslots ▸ List.mem_map_of_mem hs
  rw [tunnelInput_of_mem hnd' hmem ((hg s hs).ref.trans href), (hg s hs).tunnelIn hid,
    tunnelInput_of_mem hnd hs href]

/-- The pump has the tunnel when it receives. -/
theorem Intake.entry {handler : Controller → Command → Controller} {env : PumpEnv} {t : Taking}
    (h : Pumping Slot.ref 0 conns c) (hintake : Intake handler env conns c t c') :
    conns 0 = some 0 := by
  obtain ⟨tunnel, ht⟩ : ∃ tunnel, lookup c.slots conns 0 = some tunnel := by
    cases hintake with
    | nothing ht => exact ⟨_, ht⟩
    | starts _ hstarts =>
      cases hstarts with
      | nothing ht => exact ⟨_, ht⟩
      | command ht => exact ⟨_, ht⟩
      | data ht => exact ⟨_, ht⟩
    | goesOn ht => exact ⟨_, ht⟩
    | ends ht => exact ⟨_, ht⟩
  exact (lookup_eq_some ht).2.trans (congrArg some (h.tunnelInput ht).1)

/-- **An update on what has arrived of the stream.** -/
theorem updateFor_takes {env : Env} {tag : ℕ} (hwf : WellFormed c) (htunnel : TunnelInv c)
    (hin : ∀ s ∈ c.slots, s.conn.inBuf.CanStore) (hc : updateFor tag env c = .ok (c', .none))
    (hwrap : ∀ s ∈ c'.slots, s.conn.outBuf.Unwrapped)
    (hwhole : ∀ r ∈ pumpEntry env.poll c, Whole r.1.pump.sendingTo r.1.tunnelInput)
    (hvalid : ∀ f ∈ frames, f.event.Valid)
    (hcarries : Carries c.pump.sendingTo
      (c.tunnelInput ++ (readAt Slot.ref env.poll c.slots 0 ++ more)) frames) :
    (env.taking c).Honest (frames.map Frame.packet) ∧
      ∃ frames' events, Takes c c' (env.taking c) more frames frames' events := by
  have hannounced {m : Manager} {c₁ : Controller}
      (hpoll : cmPoll env.poll c.manager = .ok (m, .none))
      (hrun : AnnounceRun (Controller.sort { c with manager := m }) c₁) :
      ∃ events, c₁.trace = events ++ c.trace ∧ (∀ e ∈ events, e.Queues) ∧
        Carries c₁.pump.sendingTo (c₁.tunnelInput ++ more) frames := by
    have hwf₁ : WellFormed { c with manager := m } := hwf.poll hpoll
    obtain ⟨events, htrace, hqueues, hsend, hinput⟩ := announceRun_queues hwf₁.sort hrun
    refine ⟨events, htrace, hqueues, ?_⟩
    rw [hsend, hinput, tunnelInput_sort hwf₁, tunnelInput_poll hwf htunnel hin hpoll,
      List.append_assoc]
    exact hcarries
  cases updateFor_parts hwf hc with
  | waits hpoll hrun htaking =>
    obtain ⟨events, htrace, hqueues, hcarries'⟩ := hannounced hpoll hrun
    rw [htaking]
    refine ⟨fun _ hstart => absurd hstart.symm (Option.some_ne_none _), frames, events, htrace,
      hcarries', rfl, fun _ τ => ?_⟩
    rw [deliveredAt_of_forall fun e he => .inl (hqueues e he)]
    rfl
  | @pumps m c₁ c₂ conns hpoll hrun hconns hentry hintake =>
    obtain ⟨before, htrace, hqueues, hcarries'⟩ := hannounced hpoll hrun
    have hready := pumping_of_entry isKey_ref hwf htunnel (fun _ _ href => href) hpoll hrun hconns
    have hready₂ := (conveys_intake isKey_ref hready hintake).2
    obtain ⟨later, hsent⟩ := sendToTunnel_dispatches hready₂.nodup hready₂.entries
    obtain ⟨hsame, hsend⟩ := sendToTunnel_sent hready₂.nodup hready₂.entries
    have hwrap₂ := (conveys_sendToTunnel isKey_ref hready₂ ⟨hsame.map_ref ▸ hready₂.nodup, hwrap⟩).1
    obtain ⟨hhonest, frames', events, htakes⟩ := hintake.takes hready hwrap₂.output
      (hwhole _ hentry) hvalid hcarries'
    refine ⟨hhonest, frames', _, htakes.between htrace hsent.trace ?_ hsend
      (tunnelInput_sendToTunnel hready₂.nodup hready₂.entries (hintake.entry hready))⟩
    exact fun e he => he.imp (hqueues e) (hsent.sends e)

end OsTasks.PortForwarding
