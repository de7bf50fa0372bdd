import OsTasks.PortForwarding.Arrivals
import OsTasks.PortForwarding.Departures

/-!
# Connections that reuse an id

An id is given to a new client as soon as its earlier connection has been closed by one of the
endpoints. When nothing is left of the earlier connection by then, and no endpoint closes a
connection or sends data for one while the other has yet to learn of it, every frame that is taken
concerns the connection that it was queued for.

## Main definitions

* `Coherent`: the invariant of the system.

## Main results

* `Coherent.after`: an orderly update keeps the invariant, and takes frames for their connections.
* `faultless_of_orderly`: the invariant holds in every orderly run.
-/

namespace OsTasks.PortForwarding

open ReusedIds

variable {s : System} {env : Env} {a' c : Controller} {events : List PumpEvent}

/-! ### Updates -/

/-- The pump is not entered, or it ends the update. -/
theorem updateFor_eq (tag : ℕ) (env : Env) (c : Controller) :
    updateFor tag env c =
      match beforeTransfer env.poll c with
      | .error fault => .error fault
      | .ok (c, .inl cause) => .ok (c, cause)
      | .ok (c, .inr conns) =>
        (pumpTransfer (onTaggedCommand tag env.pump.connect) env.pump conns c).map (·, .none) := by
  unfold updateFor
  rcases beforeTransfer env.poll c with fault | ⟨c₁, cause | conns⟩
  · rfl
  · rfl
  · simp only [bind, Except.bind]
    cases pumpTransfer (onTaggedCommand tag env.pump.connect) env.pump conns c₁ <;> rfl

theorem acceptConnection_ne_closedConnection (env : AcceptEnv) (m : Manager) :
    acceptConnection env m ≠ .error .closedConnection := by
  have hsocket (malloc : Malloc) (m : Manager) (socket : ℤ) (own : ℕ) :
      acceptSocket malloc m socket own ≠ .error .closedConnection := by
    unfold acceptSocket
    split
    · exact fun h => nomatch h
    · split <;> exact fun h => nomatch h
  unfold acceptConnection
  split_ifs
  · exact fun h => nomatch h
  · split
    · exact hsocket _ _ _ _
    · split_ifs
      · exact fun h => nomatch h
      · exact hsocket _ _ _ _

theorem cmPoll_ne_closedConnection (env : PollEnv) (m : Manager) :
    cmPoll env m ≠ .error .closedConnection := by
  unfold cmPoll
  dsimp only
  split
  · exact fun h => nomatch h
  split_ifs
  · exact fun h => nomatch h
  · cases haccept : acceptConnection env.accept (pollAll _ (beforePoll m)) with
    | ok m' => exact fun h => nomatch h
    | error fault =>
      intro h
      obtain rfl := Except.error.inj h
      exact acceptConnection_ne_closedConnection _ _ haccept
  · exact fun h => nomatch h

/-- Frames for closed connections are found by the pump only. -/
theorem beforeTransfer_ne_closedConnection (env : PollEnv) (c : Controller) :
    beforeTransfer env c ≠ .error .closedConnection := by
  cases hpoll : cmPoll env c.manager with
  | error fault =>
    unfold beforeTransfer
    rw [hpoll]
    intro h
    obtain rfl := Except.error.inj h
    exact cmPoll_ne_closedConnection env c.manager hpoll
  | ok r =>
    obtain ⟨m, cause⟩ := r
    by_cases hcause : cause = .none
    · subst hcause
      rw [beforeTransfer_of_cmPoll hpoll]
      unfold changes
      split
      · exact fun h => nomatch h
      · split <;> exact fun h => nomatch h
    · rw [beforeTransfer_of_cause hpoll hcause]
      exact fun h => nomatch h

/-! ### Events -/

theorem newEvents_eq (h : a'.trace = events ++ s.a.trace) : s.newEvents a' = events := by
  unfold System.newEvents
  rw [h, List.length_append, Nat.add_sub_cancel, List.take_left]

theorem sentPackets_append (l₁ l₂ : List PumpEvent) :
    sentPackets (l₁ ++ l₂) = sentPackets l₂ ++ sentPackets l₁ := by
  unfold sentPackets
  rw [List.filterMap_append, List.reverse_append]

theorem deliveredTags_append (l₁ l₂ : List PumpEvent) :
    deliveredTags (l₁ ++ l₂) = deliveredTags l₂ ++ deliveredTags l₁ := by
  unfold deliveredTags
  rw [List.reverse_append, List.filterMap_append]

theorem sentPackets_of_queues (h : ∀ e ∈ events, e.Queues) : sentPackets events = [] := by
  unfold sentPackets
  rw [List.reverse_eq_nil_iff, List.filterMap_eq_nil_iff]
  intro e he
  obtain ⟨t, cmd, rfl⟩ := h e he
  rfl

theorem deliveredTags_of_forall
    (h : ∀ e ∈ events, e.Queues ∨ e.Sends) : deliveredTags events = [] := by
  unfold deliveredTags
  rw [List.filterMap_eq_nil_iff]
  intro e he
  rcases h e (List.mem_reverse.mp he) with ⟨t, cmd, rfl⟩ | hsends
  · rfl
  · cases hsends <;> rfl

theorem Busy.append {inbox : List Packet} (h : Busy c inbox) (more : List Packet) :
    Busy c (inbox ++ more) := by
  refine h.imp id fun ⟨p, rest, id, hinbox, hp, hsend⟩ => ⟨p, rest ++ more, id, ?_, hp, hsend⟩
  rw [hinbox]
  rfl

/-! ### The invariant -/

/-- The invariant of the system. -/
structure Coherent (s : System) : Prop where
  safe : ∃ T, Safe T s.world
  wellFormedA : WellFormed s.a
  wellFormedB : WellFormed s.b
  busyA : Busy s.a s.toA
  busyB : Busy s.b s.toB

theorem Coherent.swap (h : Coherent s) : Coherent s.swap := by
  obtain ⟨T, hsafe⟩ := h.safe
  exact ⟨⟨T, hsafe.swap⟩, h.wellFormedB, h.wellFormedA, h.busyB, h.busyA⟩

theorem coherent_start (envA envB : StartEnv) (bufSizeA bufSizeB : ℕ+) :
    Coherent (.start envA envB bufSizeA bufSizeB) := by
  have hworld : (System.start envA envB bufSizeA bufSizeB).world =
      ⟨[⟨some 0, 0, false, false⟩], [⟨some 0, 0, false, false⟩], [], []⟩ := rfl
  exact ⟨⟨fun _ => 0, hworld ▸ safe_single ⟨some 0, 0, false, false⟩ rfl⟩,
    wellFormed_startController .., wellFormed_startController .., .inl rfl, .inl rfl⟩

/-- The part of an update before the pump, seen from the end of the update. -/
theorem Coherent.entered (h : Coherent s) {next : CloseCause ⊕ Conns}
    (hnd : (given env.poll s.a).Nodup) (hunused : ∀ i ∈ given env.poll s.a, s.Unused i)
    (hc : beforeTransfer env.poll s.a = .ok (c, next)) (htrace : c.trace <:+ a'.trace)
    (hclosed : ∀ e ∈ s.newEvents a', Permits s.toA e) :
    (∃ cause, cause ≠ .none ∧ next = .inl cause) ∨
      (∃ events, c.trace = events ++ s.a.trace ∧ (∀ e ∈ events, e.Queues)) ∧
        Busy c s.toA ∧ ∃ T, Settled T { s with a := c }.world := by
  obtain ⟨T, hsafe⟩ := h.safe
  refine (beforeTransfer_announcements hsafe h.wellFormedA hnd hunused hc).imp id ?_
  rintro ⟨events, hann⟩
  refine ⟨⟨events, hann.trace, hann.queues⟩, ?_, hann.settled fun e he => hclosed e ?_⟩
  · have hbusy := h.busyA
    unfold Busy at hbusy ⊢
    rwa [hann.sendingTo]
  · obtain ⟨later, hlater⟩ := htrace
    rw [hann.trace, ← List.append_assoc] at hlater
    rw [newEvents_eq hlater.symm]
    exact List.mem_append_right _ he

theorem taking_of_inl {cause : CloseCause}
    (hc : beforeTransfer env.poll s.a = .ok (c, .inl cause)) : env.taking s.a = {} := by
  unfold Env.taking pumpEntry
  rw [hc]
  rfl

theorem taking_of_inr {conns : Conns} (hc : beforeTransfer env.poll s.a = .ok (c, .inr conns)) :
    env.taking s.a = taking env.pump conns c := by
  unfold Env.taking pumpEntry
  rw [hc]
  rfl

/-- An update that does not get to the pump. -/
theorem Coherent.after_inl (h : Coherent s) (hG : Orderly s env a')
    (hc : beforeTransfer env.poll s.a = .ok (a', .inl .none)) :
    Coherent (s.after env a') ∧ Concerned s env a' := by
  obtain ⟨⟨events, htrace, hqueues⟩, hbusy, T, hsettled⟩ :=
    (h.entered hG.given_nodup hG.given_unused hc (List.suffix_refl _) hG.closed).resolve_left (by
      rintro ⟨cause, hne, heq⟩
      exact hne (Sum.inl.inj heq).symm)
  have htaking := taking_of_inl hc
  have hevents := newEvents_eq htrace
  have hafter : s.after env a' = { s with a := a' } := by
    unfold System.after
    rw [htaking, hevents, sentPackets_of_queues hqueues, List.append_nil]
    rfl
  refine ⟨hafter ▸ ⟨⟨T, hsettled.toSafe⟩, ?_, h.wellFormedB, hbusy, h.busyB⟩, ?_, ?_⟩
  · exact (beforeTransfer_run h.wellFormedA hc).1.wellFormed h.wellFormedA
  · rw [hevents]
    intro e he
    obtain ⟨_, _, rfl⟩ := hqueues e he
    exact trivial
  · rw [hevents, htaking, deliveredTags_of_forall fun e he => .inl (hqueues e he)]
    rfl

/-- An update that gets to the pump. -/
theorem Coherent.after_inr (h : Coherent s) (hG : Orderly s env a')
    (hhonest : (env.taking s.a).Honest s.toA) {conns : Conns}
    (hc : beforeTransfer env.poll s.a = .ok (c, .inr conns))
    (hpump : pumpTransfer (onTaggedCommand ((env.taking s.a).tag s.toA) env.pump.connect) env.pump
      conns c = .ok a') :
    Coherent (s.after env a') ∧ Concerned s env a' := by
  have htaking := taking_of_inr hc
  rw [htaking] at hpump hhonest
  obtain ⟨c₂, hrecv, rfl⟩ := exists_of_pumpTransfer hpump
  obtain ⟨hrun, hconns⟩ := beforeTransfer_run h.wellFormedA hc
  have hwf : WellFormed c := hrun.wellFormed h.wellFormedA
  have hsent := sendToTunnel_trace conns c₂
  have hreceived := recvFromTunnel_trace (fun c command => trace_onCommand _ c _) hrecv
  obtain ⟨⟨events₁, htrace₁, hqueues⟩, hbusy, T, hsettled⟩ :=
    (h.entered hG.given_nodup hG.given_unused hc (hreceived.trans hsent) hG.closed).resolve_left (by
      rintro ⟨cause, -, heq⟩
      exact Sum.inl_ne_inr heq.symm)
  obtain ⟨events₂, harrived⟩ := (recvFromTunnel_arrived (s := { s with a := c }) hsettled hwf
    (hconns conns rfl) env.pump hbusy hhonest).2 c₂ hrecv
  let s₂ : System := { s with
    a := c₂, toA := (taking env.pump conns c).left s.toA (c₂.pump.sendingTo = -1) }
  have hpermits : ∀ e ∈ events₂, Permits s.toA e := by
    intro e he
    obtain ⟨later, hlater⟩ := hsent
    rw [harrived.trace, htrace₁, ← List.append_assoc, ← List.append_assoc] at hlater
    refine hG.closed e ?_
    rw [newEvents_eq hlater.symm]
    exact List.mem_append_left _ (List.mem_append_right _ he)
  obtain ⟨events₃, hdeparted⟩ := sendToTunnel_departed (s := s₂) (harrived.settled hpermits)
    harrived.wellFormed.nodup harrived.entries
  have hevents : s.newEvents (sendToTunnel conns c₂) = events₃ ++ events₂ ++ events₁ :=
    newEvents_eq (by
      rw [hdeparted.trace, List.append_assoc, List.append_assoc, ← htrace₁, ← harrived.trace])
  have hpackets : sentPackets (s.newEvents (sendToTunnel conns c₂)) = sentPackets events₃ := by
    rw [hevents, sentPackets_append, sentPackets_append, sentPackets_of_queues hqueues,
      harrived.packets]
    rfl
  have hsupported : Supported s₂ events₃ := by
    intro e he i hi
    have hencoded := hG.encoded e
      (hevents ▸ List.mem_append_left _ (List.mem_append_left _ he)) i hi
    rwa [hpackets] at hencoded
  have hsend := (sendToTunnel_sent harrived.wellFormed.nodup harrived.entries).2
  have hafter : s.after env (sendToTunnel conns c₂) =
      { s₂ with a := sendToTunnel conns c₂, toB := s.toB ++ sentPackets events₃ } := by
    unfold System.after
    rw [htaking, hpackets, hsend]
  refine ⟨hafter ▸ ⟨⟨T, (hdeparted.settled hsupported).toSafe⟩, ?_, h.wellFormedB, ?_,
    h.busyB.append _⟩, ?_, ?_⟩
  · exact (sendToTunnel_run harrived.wellFormed harrived.entries).wellFormed harrived.wellFormed
  · have hbusy₂ := harrived.busy
    unfold Busy at hbusy₂ ⊢
    rwa [hsend]
  · rw [hevents, htaking]
    intro e he
    rw [List.mem_append, List.mem_append] at he
    rcases he with (he | he) | he
    · cases hdeparted.sends e he <;> exact trivial
    · exact harrived.handled e he
    · obtain ⟨_, _, rfl⟩ := hqueues e he
      exact trivial
  · rw [hevents, htaking, deliveredTags_append, deliveredTags_append, harrived.delivered,
      deliveredTags_of_forall fun e he => .inl (hqueues e he),
      deliveredTags_of_forall fun e he => .inr (hdeparted.sends e he)]
    exact List.append_nil _

/-- **An orderly update** keeps the invariant, and takes frames for the connections that they were
queued for. -/
theorem Coherent.after (h : Coherent s) (hx : Exchange s env a') (hG : Orderly s env a') :
    Coherent (s.after env a') ∧ Concerned s env a' := by
  have hupdate := hx.update
  unfold System.updateA at hupdate
  rw [updateFor_eq] at hupdate
  rcases hc : beforeTransfer env.poll s.a with fault | ⟨c, cause | conns⟩
  · rw [hc] at hupdate
    cases hupdate
  · rw [hc] at hupdate
    obtain ⟨rfl, rfl⟩ := Prod.mk.inj (Except.ok.inj hupdate)
    exact h.after_inl hG hc
  · rw [hc] at hupdate
    dsimp only at hupdate
    cases hpump : pumpTransfer (onTaggedCommand ((env.taking s.a).tag s.toA) env.pump.connect)
        env.pump conns c with
    | error fault =>
      rw [hpump] at hupdate
      cases hupdate
    | ok c' =>
      rw [hpump] at hupdate
      obtain ⟨rfl, -⟩ := Prod.mk.inj (Except.ok.inj hupdate)
      exact h.after_inr hG hx.honest hc hpump

/-- **No frame is for a closed connection**, when what an update announces is orderly. -/
theorem Coherent.runs (h : Coherent s) (hhonest : (env.taking s.a).Honest s.toA)
    (hG : ∀ c next, beforeTransfer env.poll s.a = .ok (c, next) → Orderly s env c) :
    s.updateA env ≠ .error .closedConnection := by
  unfold System.updateA
  rw [updateFor_eq]
  rcases hc : beforeTransfer env.poll s.a with fault | ⟨c, cause | conns⟩
  · intro heq
    obtain rfl := Except.error.inj heq
    exact beforeTransfer_ne_closedConnection _ _ hc
  · exact fun heq => nomatch heq
  · dsimp only
    have hG := hG c _ hc
    obtain ⟨hrun, hconns⟩ := beforeTransfer_run h.wellFormedA hc
    obtain ⟨-, hbusy, T, hsettled⟩ :=
      (h.entered hG.given_nodup hG.given_unused hc (List.suffix_refl _) hG.closed).resolve_left (by
        rintro ⟨cause, -, heq⟩
        exact Sum.inl_ne_inr heq.symm)
    have htaking := taking_of_inr hc
    rw [htaking] at hhonest
    have hrecv := (recvFromTunnel_arrived (s := { s with a := c }) hsettled
      (hrun.wellFormed h.wellFormedA) (hconns conns rfl) env.pump hbusy hhonest).1
    rw [htaking, pumpTransfer_eq]
    cases hr : recvFromTunnel (onTaggedCommand ((taking env.pump conns c).tag s.toA)
        env.pump.connect) env.pump conns c with
    | ok c' => exact fun heq => nomatch heq
    | error fault =>
      intro heq
      obtain rfl := Except.error.inj heq
      exact hrecv hr

/-! ### Runs -/

/-- **The invariant holds in every orderly run.** -/
theorem SystemRun.coherent (h : SystemRun Orderly s) : Coherent s := by
  induction h with
  | start envA envB bufSizeA bufSizeB => exact coherent_start envA envB bufSizeA bufSizeB
  | first _ hx hG ih => exact (ih.after hx hG).1
  | second _ hx hG ih => exact (ih.swap.after hx hG).1.swap

/-- **Incarnations.** In every state of an orderly run, the orderly updates of both endpoints take
every frame for the connection that it was queued for, and find none for a closed connection. -/
theorem faultless_of_orderly (h : SystemRun Orderly s) :
    s.Faultless Orderly ∧ s.swap.Faultless Orderly := by
  have hcoherent := h.coherent
  exact ⟨⟨fun _ _ hx hG => (hcoherent.after hx hG).2, fun _ => hcoherent.runs⟩,
    ⟨fun _ _ hx hG => (hcoherent.swap.after hx hG).2, fun _ => hcoherent.swap.runs⟩⟩

/-! ### An id that is used again -/

/-- Two endpoints. -/
def sampleSystem : System := .start sampleStart sampleStart sampleBufSize sampleBufSize

/-- The endpoint `a`, or `b`, takes a command about connection `1`. -/
def takesCommand (second : Bool) (cmd : UInt8) : Bool × Env :=
  (second, ⟨tunnelReads (commandFrame cmd 1), samplePump⟩)

/-- The endpoint `a`, or `b`, writes all that it has for its peer. -/
def writes (second : Bool) : Bool × Env := (second, ⟨tunnelTakes 64 [], samplePump⟩)

/-- A client connects to `a`, both ends of its connection end, and both endpoints announce
`CMD_CLOSE`. -/
def bothClose : List (Bool × Env) :=
  [(false, ⟨clientComes 7, samplePump⟩), writes false, takesCommand true cmdNew, writes true,
    takesCommand false cmdAck, (false, ⟨clientReads [], samplePump⟩),
    (true, ⟨clientReads [], samplePump⟩), writes false, writes true,
    takesCommand false cmdCloseSrcToDst, takesCommand true cmdCloseSrcToDst,
    (false, ⟨quietPoll, samplePump⟩), (true, ⟨quietPoll, samplePump⟩), writes false, writes true]

/-- The id of the connection is given to a second client when the announcements have been taken. -/
theorem faultless_after_bothClose :
    ∃ s, sampleSystem.play Orderly (bothClose ++ [takesCommand true cmdClose,
        takesCommand false cmdClose, (false, ⟨clientComes 8, samplePump⟩)]) = some s ∧
      s.Faultless Orderly ∧ s.swap.Faultless Orderly := by
  have hplay : (sampleSystem.play Orderly (bothClose ++ [takesCommand true cmdClose,
      takesCommand false cmdClose, (false, ⟨clientComes 8, samplePump⟩)])).isSome = true := by
    decide +kernel
  obtain ⟨s, hs⟩ := Option.isSome_iff_exists.mp hplay
  exact ⟨s, hs, faultless_of_orderly (SystemRun.play (.start ..) hs)⟩

/-- The id is given to a second client while `CMD_CLOSE` is on its way. The command is handled for
the connection of this client, and when the peer has opened it and sends data for it, `a` exits. -/
theorem close_of_reused_id :
    (∃ s env a', SystemRun (fun _ _ _ => True) s ∧ Exchange s env a' ∧ ¬ Concerned s env a') ∧
      ∃ s env, SystemRun (fun _ _ _ => True) s ∧ (env.taking s.a).Honest s.toA ∧
        s.updateA env = .error .closedConnection := by
  let reused := bothClose ++ [(false, ⟨clientComes 8, samplePump⟩)]
  let closes : Env := ⟨tunnelReads (commandFrame cmdClose 1), samplePump⟩
  let data : Env := ⟨tunnelReads [0x7E, 1, 9, 0x7E], samplePump⟩
  constructor
  · have hplay : (sampleSystem.play (fun _ _ _ => True) reused).any (fun s =>
        (s.turn (fun s env a' => ¬ Concerned s env a') closes).isSome) = true := by
      decide +kernel
    obtain ⟨s, hs, hturn⟩ := (Option.any_eq_true _ _).mp hplay
    obtain ⟨s', hs'⟩ := Option.isSome_iff_exists.mp hturn
    obtain ⟨a', hx, hnot, -⟩ := System.exists_of_turn hs'
    exact ⟨s, closes, a', SystemRun.play (.start ..) hs, hx, hnot⟩
  · have hplay : (sampleSystem.play (fun _ _ _ => True) (reused ++ [takesCommand false cmdClose,
        writes false, takesCommand true cmdClose, takesCommand true cmdNew,
        (true, ⟨clientReads [9], samplePump⟩), writes true, takesCommand false cmdAck])).any
        (fun s => decide ((data.taking s.a).Honest s.toA) && match s.updateA data with
          | .error fault => decide (fault = .closedConnection)
          | .ok _ => false) = true := by
      decide +kernel
    obtain ⟨s, hs, hexits⟩ := (Option.any_eq_true _ _).mp hplay
    rw [Bool.and_eq_true, decide_eq_true_eq] at hexits
    refine ⟨s, data, SystemRun.play (.start ..) hs, hexits.1, ?_⟩
    replace hexits := hexits.2
    split at hexits
    · rename_i fault hfault
      rw [hfault, of_decide_eq_true hexits]
    · exact absurd hexits Bool.false_ne_true

end OsTasks.PortForwarding
