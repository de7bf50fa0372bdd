import OsTasks.PortForwarding.Openings

/-!
# A client is served once

A client is announced by one `CMD_NEW`, and a `CMD_NEW` opens at most one connection to the service.
So no two connections of the connecting endpoint are for the same client, although ids are used
again and commands may be lost. Nothing is asked of the updates but that the channels deliver the
frames that have been sent, as a whole and in order.

## Main definitions

* `OpensOnce`: what an update does to the clients.
* `ServedOnce`: the invariant of two endpoints.

## Main results

* `opens_updateFor`: an update.
* `served_at_most_once`: in every state of a run a client is at one place of its way at most.
-/

namespace OsTasks.PortForwarding

variable {c c' : Controller} {conns : Conns}

/-! ### Updates -/

theorem WellFormed.handleFrame (hwf : WellFormed c) (env : ConnectEnv) (tag : ℕ) (tunnel : Slot)
    (cmd arg : UInt8) : WellFormed (c.handleFrame (onTaggedCommand tag env) tunnel cmd arg) := by
  have hwf₁ : WellFormed ((c.modify tunnel.ref fun conn =>
      { conn with inBuf := bufAdvanceReadPtr tunnel.conn.inBuf 3 }).note (.received cmd arg)) :=
    hwf.moved (slotsMoved_inBuf 0 c.slots tunnel.ref fun _ => bufAdvanceReadPtr tunnel.conn.inBuf 3)
      rfl rfl hwf.sendingTo
  have hwf₂ := hwf₁.onCommand env ⟨cmd, arg, tag⟩
  exact hwf₂.moved (slotsMoved_inBuf 0 _ tunnel.ref fun buf => bufAdvanceReadPtr buf 2) rfl rfl
    hwf₂.sendingTo

theorem WellFormed.deliver (hwf : WellFormed c) (hconns : ConnsOk conns c.slots) (env : PumpEnv)
    {id : ℕ} (tunnel : Slot) {target : Slot} (hid : 1 ≤ id)
    (htarget : lookup c.slots conns id = some target)
    (hsend : c.pump.sendingTo = -1 ∨ c.pump.sendingTo = id) :
    WellFormed (c.deliver env id tunnel target) ∧
      ConnsOk conns (c.deliver env id tunnel target).slots := by
  obtain ⟨hlast, hdel⟩ := (hconns.lookup_iff hwf.nodup).mp htarget
  exact ⟨(Step.deliver env tunnel hid hlast hdel hsend).wellFormed hwf,
    hconns.moved (slotsMoved_deliver hwf.nodup env id tunnel (mem_of_lastWithId hlast).1)⟩

theorem WellFormed.startsFrame {env : PumpEnv} {tag : ℕ} {start : Option FrameStart}
    (hwf : WellFormed c) (hconns : ConnsOk conns c.slots) (hsend : c.pump.sendingTo = -1)
    (h : StartsFrame (onTaggedCommand tag env.connect) env conns c start c') : WellFormed c' := by
  cases h with
  | nothing => exact hwf
  | command => exact hwf.handleFrame env.connect tag _ _ _
  | @data tunnel target id b b' bytes ht hid hbytes htarget =>
    have hpos : 1 ≤ id.toNat := Nat.one_le_iff_ne_zero.mpr fun hzero =>
      hid (UInt8.toNat_inj.mp hzero)
    exact (hwf.deliver hconns env tunnel.afterStart hpos htarget (.inl hsend)).1

theorem WellFormed.intake {env : PumpEnv} {tag : ℕ} {t : Taking} (hwf : WellFormed c)
    (hconns : ConnsOk conns c.slots)
    (h : Intake (onTaggedCommand tag env.connect) env conns c t c') : WellFormed c' := by
  cases h with
  | nothing => exact hwf
  | starts hsend hstarts => exact hwf.startsFrame hconns hsend hstarts
  | @goesOn tunnel target id _ _ hid hsend htarget =>
    exact (hwf.deliver hconns env tunnel hid htarget (.inr hsend)).1
  | @ends tunnel target id _ _ _ _ hid hsend htarget hend hstarts =>
    obtain ⟨hwf', hconns'⟩ := hwf.deliver hconns env tunnel hid htarget (.inr hsend)
    exact hwf'.startsFrame hconns' (if_pos hend) hstarts

/-- What an update does to the clients. -/
structure OpensOnce (c c' : Controller) (tag : ℕ) (start : Option FrameStart)
    (events : List PumpEvent) : Prop extends CountsOpenings c c' events where
  opened : ∀ τ, events.countP (PumpEvent.opens τ) ≤ opensStart tag τ start
  remain : ∀ τ, servingTag τ c'.slots ≤ servingTag τ (undeleted c.slots) +
    events.countP (PumpEvent.opens τ) + comes τ c c'

/-- **An update.** -/
theorem opens_updateFor {env : Env} {tag : ℕ} (hwf : WellFormed c)
    (hc : updateFor tag env c = .ok (c', .none)) :
    WellFormed c' ∧ ∃ events, OpensOnce c c' tag (env.taking c).start events := by
  -- what follows `cm_poll`
  have hpolled {m : Manager} {events : List PumpEvent} {start : Option FrameStart}
      (hpoll : cmPoll env.poll c.manager = .ok (m, .none))
      (hopens : CountsOpenings { c with manager := m } c' events)
      (hopened : ∀ τ, events.countP (PumpEvent.opens τ) ≤ opensStart tag τ start) :
      OpensOnce c c' tag start events := by
    obtain ⟨hpoll', hremain⟩ := opens_poll hpoll
    have hwhole := hpoll'.trans hopens
    rw [List.append_nil] at hwhole
    refine ⟨hwhole, hopened, fun τ => ?_⟩
    have := hopens.serving τ
    have := hremain τ
    have := comes_add τ hpoll'.acceptor hpoll'.nextRef hopens.nextRef
    dsimp only [Controller.slots] at *
    omega
  have hannounced {m : Manager} {c₁ : Controller}
      (hpoll : cmPoll env.poll c.manager = .ok (m, .none))
      (hrun : AnnounceRun (Controller.sort { c with manager := m }) c₁) :
      WellFormed c₁ ∧ ∃ events, CountsOpenings { c with manager := m } c₁ events ∧
        ∀ τ, events.countP (PumpEvent.opens τ) = 0 := by
    have hwf₁ : WellFormed { c with manager := m } := hwf.poll hpoll
    obtain ⟨events, hopens, hnone⟩ := opens_announceRun hwf₁.sort hrun
    have hsorted := (opens_sort hwf₁).trans hopens
    rw [List.append_nil] at hsorted
    exact ⟨hrun.wellFormed hwf₁.sort, events, hsorted, hnone⟩
  cases updateFor_parts hwf hc with
  | waits hpoll hrun =>
    obtain ⟨hwf', events, hopens, hnone⟩ := hannounced hpoll hrun
    exact ⟨hwf', events, hpolled hpoll hopens fun τ => (hnone τ).trans_le (Nat.zero_le _)⟩
  | pumps hpoll hrun hconns _ hintake =>
    obtain ⟨hwf₁, events, hopens, hnone⟩ := hannounced hpoll hrun
    have hready : Pumping (fun _ => 0) 0 _ _ := ⟨hwf₁.pumpReady hconns, fun _ _ _ => rfl⟩
    have hready₂ := (conveys_intake (fun _ _ _ _ => rfl) hready hintake).2
    have hwf₂ := hwf₁.intake hconns hintake
    obtain ⟨received, hreceived, hopened⟩ := opens_intake hintake
    obtain ⟨sent, hsent, hnone'⟩ := opens_sendToTunnel hready₂.nodup hready₂.entries
    refine ⟨(sendToTunnel_run hwf₂ hready₂.entries).wellFormed hwf₂, sent ++ (received ++ events),
      hpolled hpoll ((hopens.trans hreceived).trans hsent) fun τ => ?_⟩
    rw [List.countP_append, List.countP_append, hnone, hnone', Nat.zero_add, Nat.add_zero]
    exact hopened τ

/-! ### Runs of two endpoints -/

variable {s : System}

/-- The invariant of the system: a client is at one place of the way to the service at most. -/
structure ServedOnce (s : System) : Prop where
  wellFormedA : WellFormed s.a
  wellFormedB : WellFormed s.b
  connecting : s.b.manager.acceptor < 0
  started : 1 ≤ s.a.manager.nextRef
  once : ∀ tag, toOpen tag s.a + s.toB.countP (Packet.opens tag) +
    s.b.trace.countP (PumpEvent.opens tag) ≤ 1
  known : ∀ tag, tag = 0 ∨ s.a.manager.nextRef ≤ tag → toOpen tag s.a +
    s.toB.countP (Packet.opens tag) + s.b.trace.countP (PumpEvent.opens tag) = 0
  back : ∀ tag, toOpen tag s.b + s.toA.countP (Packet.opens tag) +
    s.a.trace.countP (PumpEvent.opens tag) = 0
  servingA : ∀ tag, servingTag tag s.a.slots ≤ 1
  freshA : ∀ tag, s.a.manager.nextRef ≤ tag → servingTag tag s.a.slots = 0
  servingB : ∀ tag, servingTag tag s.b.slots ≤
    s.b.trace.countP (PumpEvent.opens tag) + if tag = 0 then 1 else 0

theorem servedOnce_start (envA envB : StartEnv) (bufSizeA bufSizeB : ℕ+) :
    ServedOnce (.start envA envB bufSizeA bufSizeB) where
  wellFormedA := wellFormed_startController ..
  wellFormedB := wellFormed_startController ..
  connecting := (by decide : (-1 : ℤ) < 0)
  started := Nat.le_refl 1
  once _ := Nat.zero_le _
  known _ _ := rfl
  back _ := rfl
  servingA _ := List.countP_le_length
  freshA tag htag := by
    refine List.countP_eq_zero.mpr fun t ht => ?_
    rw [List.mem_singleton.mp ht]
    have htag' : 1 ≤ tag := htag
    simp only [beq_iff_eq]
    omega
  servingB tag := by
    by_cases htag : tag = 0
    · rw [if_pos htag]
      exact List.countP_le_length
    · have hzero : servingTag tag (System.start envA envB bufSizeA bufSizeB).b.slots = 0 := by
        refine List.countP_eq_zero.mpr fun t ht => ?_
        rw [List.mem_singleton.mp ht]
        simpa using fun h => htag h.symm
      rw [hzero]
      exact Nat.zero_le _

/-- What an update of an endpoint does to the clients, seen in the system. -/
theorem exchange_opens {env : Env} {a' : Controller} (hwf : WellFormed s.a)
    (hx : Exchange s env a') :
    WellFormed a' ∧ ∃ events, CountsOpenings s.a a' events ∧ s.newEvents a' = events ∧ ∀ τ,
      events.countP (PumpEvent.opens τ) + (s.after env a').toA.countP (Packet.opens τ) ≤
        s.toA.countP (Packet.opens τ) := by
  obtain ⟨hwf', events, hopens⟩ := opens_updateFor hwf hx.update
  refine ⟨hwf', events, hopens.toCountsOpenings, newEvents_eq hopens.trace, fun τ => ?_⟩
  have := hopens.opened τ
  have := opensStart_add_left τ hx.honest (a'.pump.sendingTo = -1)
  change _ + ((env.taking s.a).left s.toA _).countP _ ≤ _
  omega

/-- An update of the accepting endpoint. -/
theorem ServedOnce.first {env : Env} {a' : Controller} (h : ServedOnce s) (hx : Exchange s env a') :
    ServedOnce (s.after env a') := by
  obtain ⟨hwf, events, hopens, hevents, htaken⟩ := exchange_opens h.wellFormedA hx
  have hnext := hopens.nextRef
  have hsent (τ : ℕ) : (s.after env a').toB.countP (Packet.opens τ) =
      s.toB.countP (Packet.opens τ) + (sentPackets events).countP (Packet.opens τ) := by
    change (s.toB ++ sentPackets (s.newEvents a')).countP _ = _
    rw [hevents, List.countP_append]
  have hnone (τ : ℕ) : events.countP (PumpEvent.opens τ) = 0 := by
    have := h.back τ
    have := htaken τ
    omega
  have hcomes (τ : ℕ) (hτ : τ < s.a.manager.nextRef ∨ a'.manager.nextRef ≤ τ) :
      comes τ s.a a' = 0 := if_neg (by omega)
  have hcomes' (τ : ℕ) : comes τ s.a a' ≤ 1 := by
    unfold comes
    split_ifs <;> omega
  have hknown (τ : ℕ) : toOpen τ a' + (s.after env a').toB.countP (Packet.opens τ) +
      s.b.trace.countP (PumpEvent.opens τ) ≤ toOpen τ s.a + s.toB.countP (Packet.opens τ) +
        s.b.trace.countP (PumpEvent.opens τ) + comes τ s.a a' := by
    have := hopens.toOpen τ
    have := hsent τ
    omega
  exact
    { wellFormedA := hwf
      wellFormedB := h.wellFormedB
      connecting := h.connecting
      started := h.started.trans hnext
      once := fun τ => by
        have := h.once τ
        have := hknown τ
        have := hcomes' τ
        change toOpen τ a' + _ + s.b.trace.countP _ ≤ 1
        by_cases hτ : τ < s.a.manager.nextRef
        · have := hcomes τ (.inl hτ)
          omega
        · have := h.known τ (.inr (by omega))
          omega
      known := fun τ hτ => by
        have hstarted := h.started
        have hτ' : τ = 0 ∨ a'.manager.nextRef ≤ τ := hτ
        have := h.known τ (by omega)
        have := hknown τ
        have := hcomes τ (by omega)
        change toOpen τ a' + _ + s.b.trace.countP _ = 0
        omega
      back := fun τ => by
        have := h.back τ
        have := htaken τ
        have := hnone τ
        change toOpen τ s.b + _ + a'.trace.countP _ = 0
        rw [hopens.trace, List.countP_append]
        omega
      servingA := fun τ => by
        have := hopens.serving τ
        have := hnone τ
        have := h.servingA τ
        have := hcomes' τ
        change servingTag τ a'.slots ≤ 1
        by_cases hτ : τ < s.a.manager.nextRef
        · have := hcomes τ (.inl hτ)
          omega
        · have := h.freshA τ (by omega)
          omega
      freshA := fun τ hτ => by
        have hτ' : a'.manager.nextRef ≤ τ := hτ
        have := hopens.serving τ
        have := hnone τ
        have := h.freshA τ (by omega)
        have := hcomes τ (.inr hτ')
        change servingTag τ a'.slots = 0
        omega
      servingB := h.servingB }

/-- An update of the connecting endpoint. -/
theorem ServedOnce.second {env : Env} {b' : Controller} (h : ServedOnce s)
    (hx : Exchange s.swap env b') : ServedOnce (s.swap.after env b').swap := by
  obtain ⟨hwf, events, hopens, hevents, htaken⟩ := exchange_opens (s := s.swap) h.wellFormedB hx
  have htaken (τ : ℕ) : events.countP (PumpEvent.opens τ) +
      (s.swap.after env b').swap.toB.countP (Packet.opens τ) ≤ s.toB.countP (Packet.opens τ) :=
    htaken τ
  have htrace : b'.trace = events ++ s.b.trace := hopens.trace
  have hcomes (τ : ℕ) : comes τ s.b b' = 0 := if_neg (by have := h.connecting; omega)
  have hserving (τ : ℕ) : servingTag τ b'.slots ≤ servingTag τ s.b.slots +
      events.countP (PumpEvent.opens τ) + comes τ s.b b' := hopens.serving τ
  have hopened (τ : ℕ) : b'.trace.countP (PumpEvent.opens τ) =
      events.countP (PumpEvent.opens τ) + s.b.trace.countP (PumpEvent.opens τ) := by
    rw [htrace, List.countP_append]
  exact
    { wellFormedA := h.wellFormedA
      wellFormedB := hwf
      connecting := hopens.acceptor.trans_lt h.connecting
      started := h.started
      once := fun τ => by
        have := h.once τ
        have := htaken τ
        have := hopened τ
        change toOpen τ s.a + _ + b'.trace.countP _ ≤ 1
        omega
      known := fun τ hτ => by
        have := h.known τ hτ
        have := htaken τ
        have := hopened τ
        change toOpen τ s.a + _ + b'.trace.countP _ = 0
        omega
      back := fun τ => by
        have := h.back τ
        have hto : (sentPackets events).countP (Packet.opens τ) + toOpen τ b' ≤
            toOpen τ s.b + comes τ s.b b' := hopens.toOpen τ
        have := hcomes τ
        change toOpen τ b' + (s.toA ++ sentPackets (s.swap.newEvents b')).countP _ +
          s.a.trace.countP _ = 0
        rw [hevents, List.countP_append]
        omega
      servingA := h.servingA
      freshA := h.freshA
      servingB := fun τ => by
        have := h.servingB τ
        have := hserving τ
        have := hopened τ
        have := hcomes τ
        change servingTag τ b'.slots ≤ b'.trace.countP _ + _
        omega }

theorem SystemRun.servedOnce {G : System → Env → Controller → Prop} (h : SystemRun G s) :
    ServedOnce s := by
  induction h with
  | start envA envB bufSizeA bufSizeB => exact servedOnce_start envA envB bufSizeA bufSizeB
  | first _ hx _ ih => exact ih.first hx
  | second _ hx _ ih => exact ih.second hx

theorem nodup_inc_of_servingTag {slots : List Slot} (h : ∀ tag, servingTag tag slots ≤ 1) :
    (slots.map Slot.inc).Nodup := by
  refine List.nodup_iff_count_le_one.mpr fun tag => ?_
  rw [List.count, List.countP_map]
  exact h tag

theorem ServedOnce.nodup (h : ServedOnce s) :
    (s.a.slots.map Slot.inc).Nodup ∧ (s.b.slots.map Slot.inc).Nodup := by
  refine ⟨nodup_inc_of_servingTag h.servingA, nodup_inc_of_servingTag fun tag => ?_⟩
  have := h.servingB tag
  have := h.once tag
  by_cases htag : tag = 0
  · have := h.known tag (.inl htag)
    rw [if_pos htag] at *
    omega
  · rw [if_neg htag] at *
    omega

end OsTasks.PortForwarding
