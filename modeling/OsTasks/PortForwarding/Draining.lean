import OsTasks.PortForwarding.SentFrames

/-!
# The queued commands

`pump_transfer` empties the command queue into the output of the tunnel. It takes a command from the
queue before it knows whether the frame of the command fits. When the output fills up, the command
that did not fit is neither in the tunnel nor in the queue. And when a frame comes behind unread
bytes that run past the end of the array, it is stored over other frames.

## Main definitions

* `KeepsCommands`: what was queued is in the tunnel or still queued, in order.

## Main results

* `commands_kept_iff`: commands are kept exactly if there is room for all of them, and the frames
  are in line.
-/

namespace OsTasks.PortForwarding

variable {conns : Conns} {c c₁ c' : Controller} {tunnel : Slot}

/-- The frames of some commands, and data frames behind them, have come to the unread bytes of the
tunnel's output, and these commands, followed by those that are still queued, are `commands`. -/
def KeepsCommands (conns : Conns) (tunnel : Slot) (commands : List Command) (c' : Controller) :
    Prop :=
  ∃ sent data, sent ++ c'.pump.cmdQueue.contents = commands ∧ (∀ e ∈ data, e.IsData) ∧
    TunnelGets conns tunnel (sent.map Command.event ++ data) c'

/-- Without room for all commands, one has left the queue that is not among the frames. -/
theorem room_of_keepsCommands {env : PumpEnv} (h : PumpReady conns c)
    (ht : lookup c.slots conns 0 = some tunnel)
    (hrecv : recvFromTunnel (onCommand env.connect) env conns c = .ok c₁)
    (hkeeps : AlwaysTransfers env conns tunnel c
      (KeepsCommands conns tunnel c₁.pump.cmdQueue.contents)) :
    5 * c₁.pump.cmdQueue.length ≤ bufFreeLength tunnel.conn.outBuf := by
  by_contra hroom
  have hbuffer := holds_buffer tunnel.conn.outBuf
  obtain ⟨c', hc, hqueue, t, ht', hout⟩ :=
    pumpTransfer_output h ht hrecv tunnel.conn.outBuf.buffer
  obtain ⟨c'', hc'', sent, data, hkept, -, t'', ht'', hcontents⟩ := hkeeps _ hbuffer
  obtain rfl := Except.ok.inj (hc''.symm.trans hc)
  obtain rfl := Option.some.inj (ht''.symm.trans ht')
  have hfits := length_eventsToSend conns (bufFreeLength tunnel.conn.outBuf) c₁
  have hlen := congrArg List.length hcontents
  rw [withArray_buffer] at hout
  rw [hout, RoundBuffer.length_contents, (length_putAll hfits).1, List.length_append,
    RoundBuffer.length_contents, stream_append, List.length_append, length_stream_commands] at hlen
  have hsent := congrArg List.length hkept
  rw [hqueue, List.length_append, List.length_drop, CmdQueue.length_contents] at hsent
  omega

/-- **The queued commands.** `pump_transfer` returns. Whatever the free cells of the tunnel's output
hold, the commands whose frames are in it afterwards, followed by those still queued, are the ones
queued before and the ones that the handler has added, exactly if the output has room for all of
them, and the frames that are appended do not come behind unread bytes that run past the end of its
array. -/
theorem commands_kept_iff {env : PumpEnv} (h : PumpReady conns c)
    (ht : lookup c.slots conns 0 = some tunnel)
    (hc : pumpTransfer (onCommand env.connect) env conns c = .ok c') :
    ∃ c₁ added, recvFromTunnel (onCommand env.connect) env conns c = .ok c₁ ∧
      c₁.pump.cmdQueue.contents = c.pump.cmdQueue.contents ++ added ∧
      (AlwaysTransfers env conns tunnel c
          (KeepsCommands conns tunnel (c.pump.cmdQueue.contents ++ added)) ↔
        5 * (c.pump.cmdQueue.contents ++ added).length ≤ bufFreeLength tunnel.conn.outBuf ∧
          tunnel.conn.outBuf.InLine
            ((eventsToSend conns (bufFreeLength tunnel.conn.outBuf) c₁).map
              TunnelEvent.frame)) := by
  obtain ⟨c₁, hrecv, -⟩ := exists_of_pumpTransfer hc
  obtain ⟨hreceipt, hready₁⟩ := recvFromTunnel_receipt h hrecv
  obtain ⟨added, hadded⟩ := hreceipt.queue
  refine ⟨c₁, added, hrecv, hadded, ?_⟩
  rw [← hadded, CmdQueue.length_contents]
  constructor
  · intro hkeeps
    refine ⟨room_of_keepsCommands h ht hrecv hkeeps, inLine_of_gets h ht hrecv ?_⟩
    exact hkeeps.mono fun c'' ⟨_, _, _, _, hgets⟩ => ⟨_, hgets⟩
  · rintro ⟨hroom, hline⟩
    obtain ⟨hevents, hnone⟩ := eventsToSend_of_room conns hroom
    refine (alwaysTransfers_of_inLine h ht hrecv hline).mono fun c'' ⟨hqueue, hgets⟩ => ?_
    rw [hevents] at hgets
    refine ⟨_, _, ?_, isData_of_mem_fittingEvents ?_, hgets⟩
    · rw [hqueue, hnone, List.append_nil]
    · exact toByte_of_mem_pendingInputs hready₁.nodup hready₁.entries

/-! ### Samples -/

/-- An accepting endpoint with a tunnel buffer of ten bytes, at the entry of the pump after the last
of the clients has come; the tunnel takes no bytes. -/
def clientsCome (fds : List ℕ) (fd : ℕ) : Option (Controller × Conns) :=
  (updates (fds.map fun fd => ⟨clientComes fd, samplePump⟩)
    (startController sampleStart tinyBufSize true)).bind
    (pumpEntry (clientComes fd))

/-- The endpoint at the entry of the pump, and after it. -/
def clientsSent (fds : List ℕ) (fd : ℕ) : Option (Controller × Conns × Controller) :=
  (clientsCome fds fd).bind fun r =>
    (pumpTransfer (onCommand samplePump.connect) samplePump r.2 r.1).toOption.map fun c' =>
      (r.1, r.2, c')

theorem of_clientsSent {fds : List ℕ} {fd : ℕ} (h : clientsSent fds fd = some (c, conns, c')) :
    PumpReady conns c ∧ pumpTransfer (onCommand samplePump.connect) samplePump conns c =
      .ok c' := by
  obtain ⟨⟨c, conns⟩, hcome, hsent⟩ := Option.bind_eq_some_iff.mp h
  obtain ⟨c', htransfer, heq⟩ := Option.map_eq_some_iff.mp hsent
  obtain ⟨rfl, hrest⟩ := Prod.mk.inj heq
  obtain ⟨rfl, rfl⟩ := Prod.mk.inj hrest
  obtain ⟨c₀, hrun, hentry⟩ := Option.bind_eq_some_iff.mp hcome
  exact ⟨(reach_updates (.start sampleStart) hrun).pumpReady hentry, eq_ok_of_toOption htransfer⟩

/-- There is room for the command of the second client. -/
theorem commands_kept_secondClient : ∃ c conns c', clientsSent [7] 8 = some (c, conns, c') ∧
    c.pump.cmdQueue.contents = [⟨cmdNew, 2, 2⟩] ∧ ∃ tunnel, lookup c.slots conns 0 = some tunnel ∧
      AlwaysTransfers samplePump conns tunnel c
        (KeepsCommands conns tunnel [⟨cmdNew, 2, 2⟩]) := by
  have hrun : (clientsSent [7] 8).bind (fun r =>
      (recvFromTunnel (onCommand samplePump.connect) samplePump r.2.1 r.1).toOption.bind fun c₁ =>
        (lookup r.1.slots r.2.1 0).map fun s => (r.1.pump.cmdQueue.contents,
          c₁.pump.cmdQueue.contents, bufFreeLength s.conn.outBuf,
          decide (s.conn.outBuf.InLine ((eventsToSend r.2.1 (bufFreeLength s.conn.outBuf) c₁).map
            TunnelEvent.frame)))) =
        some ([⟨cmdNew, 2, 2⟩], [⟨cmdNew, 2, 2⟩], 5, true) := by decide +kernel
  obtain ⟨⟨c, conns, c'⟩, hsent, hrun⟩ := Option.bind_eq_some_iff.mp hrun
  obtain ⟨c₁, hrecv, hrun⟩ := Option.bind_eq_some_iff.mp hrun
  obtain ⟨tunnel, ht, hrun⟩ := Option.map_eq_some_iff.mp hrun
  simp only [Prod.mk.injEq, decide_eq_true_eq] at hrun
  obtain ⟨hqueue, hqueue₁, hfree, hline⟩ := hrun
  obtain ⟨hready, htransfer⟩ := of_clientsSent hsent
  obtain ⟨c₁', added, hrecv', hadded, hiff⟩ := commands_kept_iff hready ht htransfer
  obtain rfl := Except.ok.inj ((eq_ok_of_toOption hrecv).symm.trans hrecv')
  rw [← hadded, hqueue₁] at hiff
  exact ⟨c, conns, c', hsent, hqueue, tunnel, ht, hiff.mpr ⟨by rw [hfree]; decide, hline⟩⟩

/-- There is no room for the command of the third client, and the command is lost. -/
theorem not_commands_kept_thirdClient : ∃ c conns c', clientsSent [7, 8] 9 = some (c, conns, c') ∧
    c.pump.cmdQueue.contents = [⟨cmdNew, 3, 3⟩] ∧ c'.pump.cmdQueue.contents = [] ∧
    ∃ tunnel, lookup c.slots conns 0 = some tunnel ∧
      ∀ added, ¬ KeepsCommands conns tunnel ([⟨cmdNew, 3, 3⟩] ++ added) c' := by
  have hrun : (clientsSent [7, 8] 9).bind (fun r =>
      (lookup r.1.slots r.2.1 0).map fun s => (r.1.pump.cmdQueue.contents,
        r.2.2.pump.cmdQueue.contents, s.conn.outBuf.length,
        (lookup r.2.2.slots r.2.1 0).map fun s => s.conn.outBuf.length)) =
        some ([⟨cmdNew, 3, 3⟩], [], 10, some 10) := by decide +kernel
  obtain ⟨⟨c, conns, c'⟩, hsent, hrun⟩ := Option.bind_eq_some_iff.mp hrun
  obtain ⟨tunnel, ht, hrun⟩ := Option.map_eq_some_iff.mp hrun
  simp only [Prod.mk.injEq] at hrun
  obtain ⟨hqueue, hqueue', hfull, hfull'⟩ := hrun
  refine ⟨c, conns, c', hsent, hqueue, hqueue', tunnel, ht, ?_⟩
  rintro added ⟨sent, data, hkept, -, t, ht', hcontents⟩
  rw [ht', Option.map_some, Option.some_inj] at hfull'
  rw [hqueue', List.append_nil] at hkept
  -- a frame of five bytes has no room
  have hlen := congrArg List.length hcontents
  rw [List.length_append, RoundBuffer.length_contents, RoundBuffer.length_contents, hfull, hfull',
    stream_append, List.length_append, length_stream_commands, hkept] at hlen
  simp at hlen

end OsTasks.PortForwarding
