import OsTasks.PortForwarding.FramesInFlight

/-!
# Frames that leave

`pump_transfer` appends queued commands and inputs of connections to the output of the tunnel. A
command that is sent goes from the queue to the end of the channel, which changes nothing of what is
in flight; a command that does not fit is lost; and data comes between the channel and the queue.

## Main definitions

* `PumpEvent.Sends`: the events of sending.
* `Supported`: data is encoded for connections that the peer has, or is about to open.

## Main results

* `sendToTunnel_departed`: sending keeps the invariant.
-/

namespace OsTasks.PortForwarding

open ReusedIds

variable {T : ℕ → ℕ} {s : System} {conns : Conns} {c : Controller} {events : List PumpEvent}

/-- A queued command is sent or dropped, or data is encoded. -/
inductive PumpEvent.Sends : PumpEvent → Prop
  | sent (command : Command) : PumpEvent.Sends (.sent command)
  | dropped (command : Command) : PumpEvent.Sends (.dropped command)
  | encoded (t : Slot) (bytes : List UInt8) : PumpEvent.Sends (.encoded t bytes)

/-- The peer serves the connections that data is encoded for, or `CMD_NEW` is on its way. -/
def Supported (s : System) (events : List PumpEvent) : Prop :=
  ∀ e ∈ events, ∀ i ∈ e.encodes, Serves s.b i ∨
    ∃ p ∈ s.toB ++ sentPackets events, p.start = .command cmdNew (toByte i)

/-! ### Objects and events -/

/-- A change of the buffers of an object. -/
theorem entries_modifyConn {slots : List Slot} {ref : ℕ} {f : Connection → Connection}
    (hf : ∀ conn, (f conn).id = conn.id ∧ (f conn).state = conn.state) :
    (modifyConn slots ref f).map Slot.entry = slots.map Slot.entry := by
  rw [modifyConn_eq_map, List.map_map]
  refine List.map_congr_left fun t _ => ?_
  change (modifySlot ref f t).entry = t.entry
  unfold modifySlot
  split_ifs
  · unfold Slot.entry
    dsimp only
    rw [(hf t.conn).1, (hf t.conn).2]
  · rfl

@[simp] theorem sentPackets_cons (e : PumpEvent) (events : List PumpEvent) :
    sentPackets (e :: events) = sentPackets events ++ e.packet.toList := by
  unfold sentPackets
  rw [List.filterMap_cons]
  cases e.packet <;> simp

/-- Sending is a sequence of steps. -/
theorem sendToTunnel_run (h : WellFormed c) (hentries : EntriesAt conns c.slots) :
    StepRun c (sendToTunnel conns c) := by
  obtain ⟨hrun, hentries'⟩ := drainCommands_run (cmdqLength c.pump.cmdQueue) h hentries
  exact sendToTunnel_of_drained hrun
    (hrun.trans (encodeConnections_run _ _ (StepRun.wellFormed hrun h) hentries'))

/-- Sending adds to the trace. -/
theorem sendToTunnel_trace (conns : Conns) (c : Controller) :
    c.trace <:+ (sendToTunnel conns c).trace := by
  have hdrain : c.trace <:+ (drainCommands conns (cmdqLength c.pump.cmdQueue) c).2.trace :=
    drainCommands_induction (P := fun c' => c.trace <:+ c'.trace) (fun _ h => h)
      (fun _ _ h => h.trans (List.suffix_cons _ _)) (fun _ h => h.trans (List.suffix_cons _ _)) _
      (List.suffix_refl _)
  exact sendToTunnel_of_drained (P := fun c' => c.trace <:+ c'.trace) hdrain
    (hdrain.trans (encodeConnections_trace _ _ _ _))

/-! ### Queued commands -/

/-- Sending so far: what has been sent is in the channel. -/
def Drained (T : ℕ → ℕ) (s : System) (c : Controller) : Prop :=
  ∃ events, c.trace = events ++ s.a.trace ∧ (∀ e ∈ events, e.Sends) ∧
    Settled T { s with a := c, toB := s.toB ++ sentPackets events }.world

/-- The oldest queued command. -/
theorem inFlight_dequeue (channel : List Packet) (hqueue : cmdqLength c.pump.cmdQueue ≠ 0) :
    inFlight channel c = channel.map Packet.message ++
      (cmdqDequeue c.pump.cmdQueue).1.packet.message ::
        (cmdqDequeue c.pump.cmdQueue).2.contents.map fun command => command.packet.message := by
  unfold inFlight
  rw [contents_cmdqDequeue hqueue, List.map_cons]

/-- A queued command is lost. -/
theorem settled_lose {channel : List Packet} (hqueue : cmdqLength c.pump.cmdQueue ≠ 0)
    (h : Settled T { s with a := c, toB := channel }.world) :
    Settled T { s with a := c.setQueue (cmdqDequeue c.pump.cmdQueue).2, toB := channel }.world := by
  refine h.lose (inFlight_dequeue channel hqueue) fun m hm => ?_
  obtain ⟨command, -, rfl⟩ := List.mem_map.mp hm
  exact commandKind_ne_data command.cmd

/-- The oldest queued command goes to the end of the channel. -/
theorem inFlight_sent (channel : List Packet) (hqueue : cmdqLength c.pump.cmdQueue ≠ 0) :
    inFlight (channel ++ [(cmdqDequeue c.pump.cmdQueue).1.packet])
      (c.setQueue (cmdqDequeue c.pump.cmdQueue).2) = inFlight channel c := by
  rw [inFlight_dequeue channel hqueue]
  unfold inFlight
  rw [List.map_append, List.append_assoc]
  rfl

/-- **Sending the queued commands** keeps the invariant. -/
theorem drainCommands_drained (conns : Conns) (n : ℕ) (h : Settled T s.world) :
    Drained T s (drainCommands conns n s.a).2 := by
  refine drainCommands_induction (P := Drained T s) ?_ ?_ ?_ n ?_
  · rintro c hqueue ⟨events, htrace, hsends, hsettled⟩
    exact ⟨events, htrace, hsends, settled_lose hqueue hsettled⟩
  · rintro c tunnel hqueue ⟨events, htrace, hsends, hsettled⟩
    refine ⟨_ :: events, congrArg _ htrace, List.forall_mem_cons.mpr ⟨.sent _, hsends⟩, ?_⟩
    rw [sentPackets_cons, ← List.append_assoc]
    refine (congrArg (Settled T) (world_congr ?_ ?_)).mpr hsettled
    · let f : Connection → Connection := fun conn =>
        { conn with outBuf := (encodeCommand tunnel.conn.outBuf (cmdqDequeue c.pump.cmdQueue).1.cmd
          (cmdqDequeue c.pump.cmdQueue).1.arg).2 }
      exact entries_modifyConn (f := f) fun _ => ⟨rfl, rfl⟩
    · exact inFlight_sent _ hqueue
  · rintro c hqueue ⟨events, htrace, hsends, hsettled⟩
    refine ⟨_ :: events, congrArg _ htrace,
      List.forall_mem_cons.mpr ⟨.dropped _, hsends⟩, ?_⟩
    have hlost := settled_lose hqueue hsettled
    rw [sentPackets_cons, PumpEvent.packet, Option.toList_none, List.append_nil]
    exact hlost
  · refine ⟨[], rfl, fun _ he => absurd he List.not_mem_nil, ?_⟩
    rw [show sentPackets [] = [] from rfl, List.append_nil]
    exact h

/-! ### Data -/

/-- What sending has done to `a`. -/
structure Departed (T : ℕ → ℕ) (s : System) (c : Controller) (events : List PumpEvent) : Prop where
  trace : c.trace = events ++ s.a.trace
  sends : ∀ e ∈ events, e.Sends
  settled : Supported s events →
    Settled T { s with a := c, toB := s.toB ++ sentPackets events }.world

theorem pump_encodeTo (c : Controller) (t tunnel : Slot) :
    (c.encodeTo t tunnel).pump = c.pump := by
  unfold Controller.encodeTo
  dsimp only
  split <;> rfl

theorem entries_encodeTo (c : Controller) (t tunnel : Slot) :
    (c.encodeTo t tunnel).slots.map Slot.entry = c.slots.map Slot.entry := by
  rw [slots_encodeTo]
  refine (entries_modifyConn ?_).trans (entries_modifyConn ?_) <;> exact fun _ => ⟨rfl, rfl⟩

/-- A data frame opens nothing. -/
theorem mem_of_command {t : Slot} {bytes : List UInt8} {p : Packet} {channel : List Packet}
    {cmd arg : UInt8} (hp : p ∈ channel ++ sentPackets (.encoded t bytes :: events))
    (hstart : p.start = .command cmd arg) : p ∈ channel ++ sentPackets events := by
  rw [sentPackets_cons, ← List.append_assoc, List.mem_append] at hp
  refine hp.resolve_right fun hp => ?_
  rw [List.mem_singleton.mp hp] at hstart
  cases hstart

theorem Supported.of_cons {t : Slot} {bytes : List UInt8}
    (h : Supported s (.encoded t bytes :: events)) : Supported s events := fun e he i hi =>
  (h e (List.mem_cons_of_mem _ he) i hi).imp id fun ⟨p, hp, hstart⟩ =>
    ⟨p, mem_of_command hp hstart, hstart⟩

/-- **One data frame** keeps the invariant, if the connection it is for is supported. -/
theorem Departed.encodeTo {t tunnel : Slot} {i : ℕ} (h : Departed T s c events)
    (hwf : (c.slots.map Slot.ref).Nodup) (hentries : EntriesAt conns c.slots) (hi : i < 255)
    (ht : lookup c.slots conns (i + 1) = some t) (hstate : isAlive t.conn.state = true) :
    ∃ events, Departed T s (c.encodeTo t tunnel) events := by
  have hid := hentries.id hwf ht
  have hmem := (lookup_eq_some ht).1
  have htrace := trace_encodeTo c t tunnel
  split_ifs at htrace with hempty
  · refine ⟨events, htrace.trans h.trace, h.sends, fun hsupported => ?_⟩
    refine (congrArg (Settled T) (world_congr (entries_encodeTo c t tunnel) ?_)).mpr
      (h.settled hsupported)
    unfold inFlight
    rw [pump_encodeTo]
  · refine ⟨_ :: events, htrace.trans (congrArg _ h.trace),
      List.forall_mem_cons.mpr ⟨.encoded _ _, h.sends⟩, fun hsupported => ?_⟩
    have hsettled := h.settled hsupported.of_cons
    have hidt : t.entry.id = some t.conn.id.toNat := entry_id.mpr (by omega)
    have hpeer : Tracks (s.b.slots.map Slot.entry) t.conn.id.toNat ∨
        ∃ n ∈ (s.toB ++ sentPackets events).map Packet.message,
          n.kind = .opens ∧ n.id = t.conn.id.toNat := by
      rcases hsupported _ List.mem_cons_self _ rfl with ⟨u, hu, hidu, hopen⟩ | ⟨p, hp, hstart⟩
      · exact .inl (lists_entries.mpr ⟨u, hu, by omega, hopen⟩)
      · refine .inr ⟨p.message, List.mem_map_of_mem (mem_of_command hp hstart), ?_, ?_⟩
        · unfold Packet.message
          rw [hstart]
          rfl
        · change p.start.id = _
          rw [hstart]
          exact toNat_toByte (by omega) (by omega)
    have hmessage : Packet.message ⟨.data (toByte t.conn.id), t.inc⟩ =
        ⟨.data, t.conn.id.toNat, t.entry.tag⟩ :=
      congrArg (fun i => (⟨.data, i, t.inc⟩ : Message)) (toNat_toByte (by omega) (by omega))
    have hsaid := hsettled.say (List.mem_map_of_mem hmem) hidt ((isAlive_iff _).mp hstate).2.2 rfl
      hpeer
    refine (congrArg (Settled T) ?_).mpr hsaid
    unfold System.world
    dsimp only
    rw [entries_encodeTo, sentPackets_cons, ← List.append_assoc]
    congr 1
    unfold inFlight
    rw [pump_encodeTo, List.map_append, List.append_assoc, ← hmessage]
    rfl

/-- **Encoding** keeps the invariant. -/
theorem encodeConnections_departed (index : ℕ) (is : List ℕ) (hnd : (c.slots.map Slot.ref).Nodup)
    (hentries : EntriesAt conns c.slots) (h : ∃ events, Departed T s c events) :
    ∃ events, Departed T s (encodeConnections conns index is c) events := by
  refine encodeConnections_induction (P := fun c => ∃ events, Departed T s c events)
    (fun hnd hentries hi ht hstate _ h => ?_) (fun i h => ?_) index is hnd hentries h
  · obtain ⟨events, h⟩ := h
    exact h.encodeTo hnd hentries hi ht hstate
  · obtain ⟨events, h⟩ := h
    exact ⟨events, h.trace, h.sends, h.settled⟩

/-- **Sending** keeps the invariant, if the connections that data is encoded for are supported. -/
theorem sendToTunnel_departed (h : Settled T s.world) (hnd : (s.a.slots.map Slot.ref).Nodup)
    (hentries : EntriesAt conns s.a.slots) :
    ∃ events, Departed T s (sendToTunnel conns s.a) events := by
  obtain ⟨events, htrace, hsends, hsettled⟩ :=
    drainCommands_drained conns (cmdqLength s.a.pump.cmdQueue) h
  have hdrained : Departed T s (drainCommands conns (cmdqLength s.a.pump.cmdQueue) s.a).2 events :=
    ⟨htrace, hsends, fun _ => hsettled⟩
  have hsent := (drainCommands_sent (cmdqLength s.a.pump.cmdQueue) hnd hentries).1
  exact sendToTunnel_of_drained (P := fun c => ∃ events, Departed T s c events) ⟨events, hdrained⟩
    (encodeConnections_departed _ _ (hsent.map_ref ▸ hnd) (hsent.entriesAt hentries)
      ⟨events, hdrained⟩)

end OsTasks.PortForwarding
