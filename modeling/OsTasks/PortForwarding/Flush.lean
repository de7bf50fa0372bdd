import OsTasks.PortForwarding.ObjectSteps

/-!
# Closing after the output has drained

When `close_sockets` shuts down the output of a connection or closes its socket, the bytes that are
still in `out_buf` are lost. What the endpoint closes by itself has drained before; `CMD_CLOSE` and
`CMD_CLOSE_SRC_TO_DST` of the peer are carried out at the next poll, whatever `out_buf` holds.

## Main definitions

* `FlushedCall`, `FlushedLog`: no output is lost by a call, by the calls of a log.
* `FlushInv`: the invariant of a connection and its log.
* `PumpEvent.FlushesFirst`: the commands and data of the peer that lose no output.

## Main results

* `flushed_of_guarded`: in a run with only such events no output is lost.
* `not_flushed_slowReader`: a run in which a slow reader loses two bytes.
-/

namespace OsTasks.PortForwarding

/-! ### Calls that lose output -/

/-- A write of the connection at `ref` has reported an error or the end of its direction. -/
def writeFailed (ref : ℕ) (log : List SysCall) : Bool :=
  log.any fun
    | .writev s _ cause => s.ref == ref && cause != .none
    | _ => false

/-- A call that ends the output of a connection other than the tunnel loses no bytes, unless a
write has failed before. -/
def FlushedCall (older : List SysCall) : SysCall → Prop
  | .close s _ | .shutdown s _ .wr =>
    s.conn.id = 0 ∨ writeFailed s.ref older = true ∨ s.conn.outBuf.length = 0
  | _ => True

/-- No call of a log, the newest first, loses output. -/
def FlushedLog : List SysCall → Prop
  | [] => True
  | e :: older => FlushedCall older e ∧ FlushedLog older

instance (older : List SysCall) : DecidablePred (FlushedCall older)
  | .close .. | .shutdown _ _ .wr => inferInstanceAs (Decidable (_ ∨ _ ∨ _))
  | .shutdown _ _ .rd | .opened .. | .polled .. | .readv .. | .writev .. | .closeUnused .. |
    .closeListener .. | .closePipe .. => isTrue trivial

/-- `FlushedLog` is decided by looking at each call. -/
def decideFlushedLog : (log : List SysCall) → Decidable (FlushedLog log)
  | [] => isTrue trivial
  | _ :: older =>
    have := decideFlushedLog older
    inferInstanceAs (Decidable (_ ∧ _))

instance : DecidablePred FlushedLog := decideFlushedLog

theorem writeFailed_append {ref : ℕ} {log : List SysCall} (newer : List SysCall)
    (h : writeFailed ref log = true) : writeFailed ref (newer ++ log) = true := by
  rw [writeFailed, List.any_append, Bool.or_eq_true]
  exact .inr h

theorem FlushedCall.append {log : List SysCall} {e : SysCall} (newer : List SysCall)
    (h : FlushedCall log e) : FlushedCall (newer ++ log) e := by
  cases e with
  | close => exact h.imp id (Or.imp (writeFailed_append newer) id)
  | shutdown s fd how =>
    cases how with
    | rd => trivial
    | wr => exact h.imp id (Or.imp (writeFailed_append newer) id)
  | _ => trivial

theorem FlushedLog.append {log : List SysCall} (h : FlushedLog log) {calls : List SysCall}
    (hcalls : ∀ e ∈ calls, FlushedCall log e) : FlushedLog (calls ++ log) := by
  induction calls with
  | nil => exact h
  | cons e calls ih =>
    obtain ⟨he, hrest⟩ := List.forall_mem_cons.mp hcalls
    exact ⟨he.append calls, ih hrest⟩

theorem QuietLog.flushedLog {log : List SysCall} (h : QuietLog log) : FlushedLog log := by
  induction log with
  | nil => trivial
  | cons e log ih =>
    obtain ⟨he, hlog⟩ := List.forall_mem_cons.mp h
    exact ⟨he ▸ trivial, ih hlog⟩

/-- A write that is recorded for one connection is recorded in the whole log. -/
theorem writeFailed_of_callsOf {ref : ℕ} {log : List SysCall}
    (h : writeFailed ref (callsOf ref log) = true) : writeFailed ref log = true := by
  obtain ⟨e', he', hfailed⟩ := List.any_eq_true.mp h
  obtain ⟨e, he, hrestrict⟩ := List.mem_filterMap.mp he'
  refine List.any_eq_true.mpr ⟨e, he, ?_⟩
  cases e <;> simp only [SysCall.restrict, reduceCtorEq, Option.ite_none_right_eq_some,
    Option.some.injEq] at hrestrict
  case polled =>
    subst hrestrict
    exact hfailed
  all_goals
    obtain ⟨-, rfl⟩ := hrestrict
    exact hfailed

/-- No call loses output if none does among the calls of each connection. -/
theorem flushedLog_of_callsOf {log : List SysCall} (h : ∀ ref, FlushedLog (callsOf ref log)) :
    FlushedLog log := by
  induction log with
  | nil => trivial
  | cons e log ih =>
    refine ⟨?_, ih fun ref => ?_⟩
    · have hcall : ∀ s : Slot, e.restrict s.ref = some e → FlushedCall (callsOf s.ref log) e := by
        intro s hs
        have href := h s.ref
        rw [callsOf_cons, hs] at href
        exact href.1
      cases e with
      | close s fd =>
        exact (hcall s (if_pos rfl)).imp id (Or.imp writeFailed_of_callsOf id)
      | shutdown s fd how =>
        cases how with
        | rd => trivial
        | wr => exact (hcall s (if_pos rfl)).imp id (Or.imp writeFailed_of_callsOf id)
      | _ => trivial
    · have href := h ref
      rw [callsOf_cons] at href
      cases hrestrict : e.restrict ref with
      | none => rwa [hrestrict] at href
      | some e' =>
        rw [hrestrict] at href
        exact href.2

/-! ### The invariant of a connection -/

/-- A connection whose output has been told to end, by deletion, has drained or failed. -/
structure FlushInv (log : List SysCall) (s : Slot) : Prop where
  calls : FlushedLog log
  connOk : ConnOk s.conn
  failed : s.conn.outState.eof = true → writeFailed s.ref log = true
  pending : s.conn.id = 0 ∨ writeFailed s.ref log = true ∨
    (s.conn.state.delete = false ∧ s.conn.outState.delete = false) ∨ s.conn.outBuf.length = 0

variable {log : List SysCall} {s s' : Slot}

/-- The invariant after an operation that makes calls and leaves the output alone. -/
theorem FlushInv.keep (h : FlushInv log s) (hop : SlotOp s s')
    (heof : s'.conn.outState.eof = s.conn.outState.eof) (hbuf : s'.conn.outBuf = s.conn.outBuf)
    (calls : List SysCall) (hcalls : ∀ e ∈ calls, FlushedCall log e) :
    FlushInv (calls ++ log) s' := by
  have hkeep := hop.keeps
  refine ⟨h.calls.append hcalls, h.connOk.slotOp hop, fun hs' => ?_, ?_⟩
  · rw [hkeep.ref]
    exact writeFailed_append calls (h.failed (heof ▸ hs'))
  · rw [hkeep.ref, hkeep.id, hkeep.delete, hkeep.outDelete, hbuf]
    exact h.pending.imp id (Or.imp (writeFailed_append calls) id)

/-- A connection whose output is ended by `close_sockets` has drained or failed. -/
theorem FlushInv.drained (h : FlushInv log s)
    (hended : s.conn.state.delete = true ∨ shouldClose s.conn.outState = true) :
    s.conn.id = 0 ∨ writeFailed s.ref log = true ∨ s.conn.outBuf.length = 0 := by
  rcases h.pending with hid | hfailed | ⟨hdel, hout⟩ | hempty
  · exact .inl hid
  · exact .inr (.inl hfailed)
  · rw [shouldClose_iff, hdel, hout] at hended
    exact .inr (.inl (h.failed (by simpa using hended)))
  · exact .inr (.inr hempty)

theorem FlushInv.close (h : FlushInv log s) :
    FlushInv ((closeSocket s).2.reverse ++ log) (closeSocket s).1 := by
  have hout : (closeSocket s).1.conn.outState.eof = s.conn.outState.eof ∧
      (closeSocket s).1.conn.outBuf = s.conn.outBuf := by
    rcases closeSocket_cases s with ⟨-, h'⟩ | ⟨-, -, h'⟩ | ⟨-, -, h'⟩ <;> rw [h']
    · exact ⟨rfl, rfl⟩
    · exact ⟨rfl, rfl⟩
    · exact ⟨eof_closeDirection _, rfl⟩
  refine h.keep (.close s) hout.1 hout.2 _ fun e he => ?_
  obtain ⟨hopen, ⟨hclose, rfl⟩ | ⟨-, ⟨-, rfl⟩ | ⟨hwr, rfl⟩⟩⟩ :=
    mem_closeSocket (List.mem_reverse.mp he)
  · exact h.drained ((h.connOk.ended_of_shouldCloseSocket hopen hclose).imp id And.right)
  · trivial
  · exact h.drained (.inr hwr)

theorem FlushInv.arm (h : FlushInv log s) : FlushInv log (armOutput s) := by
  exact h.keep (.arm s) (by rw [conn_armOutput]) (by rw [conn_armOutput]) []
    fun e he => absurd he List.not_mem_nil

theorem FlushInv.receive (h : FlushInv log s) (halive : isAlive s.conn.state = true)
    (r : ReadResult) : FlushInv ((receive r s).2.reverse ++ log) (receive r s).1 := by
  have hout : (PortForwarding.receive r s).1.conn.outState = s.conn.outState ∧
      (PortForwarding.receive r s).1.conn.outBuf = s.conn.outBuf := by
    rcases receive_cases r s with h' | ⟨_, _, h', -, -, rfl | ⟨_, rfl⟩⟩ <;> rw [h'] <;>
      exact ⟨rfl, rfl⟩
  refine h.keep (.receive r s halive) (by rw [hout.1]) hout.2 _ fun e he => ?_
  obtain ⟨-, -, rfl⟩ := mem_receive (List.mem_reverse.mp he)
  trivial

theorem FlushInv.transmit (h : FlushInv log s) (halive : isAlive s.conn.state = true)
    (r : WriteResult) : FlushInv ((transmit r s).2.reverse ++ log) (transmit r s).1 := by
  have hkeep := (SlotOp.transmit r s halive).keeps
  have hok := h.connOk.slotOp (.transmit r s halive)
  have hcalls : FlushedLog ((PortForwarding.transmit r s).2.reverse ++ log) :=
    h.calls.append fun e he => by
      obtain ⟨-, -, rfl⟩ := mem_transmit (List.mem_reverse.mp he)
      trivial
  refine ⟨hcalls, hok, ?_, ?_⟩
  · rw [hkeep.ref]
    unfold PortForwarding.transmit
    split_ifs with hdead hwrite
    · exact fun heof => writeFailed_append _ (h.failed heof)
    · intro heof
      have hcause := (eof_markEof _ _).mp heof
      rcases hcause with heof | hcause
      · exact writeFailed_append _ (h.failed heof)
      · refine List.any_eq_true.mpr ⟨_, List.mem_append_left _ (List.mem_singleton_self _), ?_⟩
        exact Bool.and_eq_true_iff.mpr ⟨beq_self_eq_true _, bne_iff_ne.mpr hcause⟩
    · exact fun heof => writeFailed_append _ (h.failed heof)
  · rw [hkeep.ref, hkeep.id, hkeep.delete, hkeep.outDelete]
    refine h.pending.imp id (Or.imp (writeFailed_append _) (Or.imp id fun hempty => ?_))
    rcases transmit_cases r s with h' | ⟨_, _, h', -, -, rfl | ⟨hne, -⟩⟩
    · rw [h', hempty]
    · rw [h', hempty]
    · exact absurd hempty hne

theorem FlushInv.serve (h : FlushInv log s) (env : SocketEnv) :
    FlushInv ((serve env s).2.reverse ++ log) (serve env s).1 := by
  unfold PortForwarding.serve
  split_ifs with halive
  · have hkeep : (PortForwarding.receive (env.read s.ref) s).1.conn.state = s.conn.state := by
      unfold PortForwarding.receive
      dsimp only
      split_ifs <;> rfl
    have hsent := (h.receive halive (env.read s.ref)).transmit (hkeep ▸ halive) (env.write s.ref)
    dsimp only
    rw [List.reverse_append, List.append_assoc]
    exact hsent
  · exact h

/-- A connection that has just been opened has nothing to lose. -/
theorem flushInv_fresh (hlog : FlushedLog log) (hok : ConnOk s.conn)
    (heof : s.conn.outState.eof = false) (hempty : s.conn.outBuf.length = 0) : FlushInv log s :=
  ⟨hlog, hok, fun h => absurd h (ne_true_of_eq_false heof), .inr (.inr (.inr hempty))⟩

/-- **The slot operations keep the invariant.** -/
theorem flushInvariant : ObjectInvariant FlushInv FlushInv FlushedLog where
  close _ _ h := h.close
  arm _ _ h := h.arm
  poll ready log s h :=
    h.keep (.poll ready s) rfl rfl [.polled _] fun e he => by
      obtain rfl := List.mem_singleton.mp he
      trivial
  serve env _ _ h := h.serve env
  weaken _ _ h := h
  client _ _ _ _ _ hlog :=
    flushInv_fresh ⟨trivial, hlog.flushedLog⟩ (by constructor <;> simp [clientSlot]) rfl rfl
  server _ _ _ _ _ _ _ _ hlog :=
    flushInv_fresh ⟨trivial, hlog.flushedLog⟩ (by constructor <;> simp [serverSlot]) rfl rfl
  unused _ _ _ hlog := ⟨trivial, trivial, hlog.flushedLog⟩
  leave _ _ h _ := h.calls
  ignore _ h := ⟨trivial, h⟩

/-! ### Commands and data of the peer -/

/-- The events by which the peer makes the endpoint lose no output: `CMD_CLOSE` and
`CMD_CLOSE_SRC_TO_DST` find the output of the connection drained or failed, and no bytes are
delivered after `CMD_CLOSE_SRC_TO_DST`. -/
def PumpEvent.FlushesFirst : PumpEvent → Prop
  | .handled command (some s) _ _ => command.cmd = cmdClose ∨ command.cmd = cmdCloseSrcToDst →
    s.conn.id = 0 ∨ s.conn.outState.eof = true ∨ s.conn.outBuf.length = 0
  | .delivered _ _ s bytes =>
    s.conn.outState.delete = false ∨ s.conn.outState.eof = true ∨ bytes = []
  | _ => True

instance : DecidablePred PumpEvent.FlushesFirst
  | .handled _ (some _) _ _ => inferInstanceAs (Decidable (_ → _ ∨ _))
  | .delivered .. => inferInstanceAs (Decidable (_ ∨ _))
  | .handled _ none _ _ | .queued .. | .received .. | .sent .. | .dropped .. | .encoded .. =>
    isTrue trivial

/-- The invariant after a change of the connection that keeps its id and its output. -/
theorem FlushInv.change (h : FlushInv log s) {conn : Connection} (hok : ConnOk conn)
    (hid : conn.id = s.conn.id) (heof : conn.outState.eof = s.conn.outState.eof)
    (hbuf : conn.outBuf.length = s.conn.outBuf.length)
    (hpending : s.conn.id = 0 ∨ s.conn.outState.eof = true ∨
      (conn.state.delete = s.conn.state.delete ∧ conn.outState.delete = s.conn.outState.delete) ∨
        s.conn.outBuf.length = 0) : FlushInv log { s with conn := conn } where
  calls := h.calls
  connOk := hok
  failed hfailed := h.failed (heof ▸ hfailed)
  pending := by
    rw [hid, hbuf]
    rcases hpending with hzero | hfailed | ⟨hdel, hout⟩ | hempty
    · exact .inl hzero
    · exact .inr (.inl (h.failed hfailed))
    · rw [hdel, hout]
      exact h.pending
    · exact .inr (.inr (.inr hempty))

theorem FlushInv.assigned {stack : List ℤ} (h : FlushInv log s) (hass : Assigned stack s s') :
    FlushInv log s' := by
  obtain rfl | ⟨hneg, id, -, rfl⟩ := hass
  · exact h
  · have hok := h.connOk
    refine ⟨h.calls, ⟨hok.1, hok.2, hok.3, hok.4, hok.5, hok.6, hok.7⟩, h.failed, .inr ?_⟩
    exact h.pending.resolve_left hneg.ne

/-- What `handle_state_changes` closes has drained. -/
theorem FlushInv.announces (h : FlushInv log s) {cmd : UInt8} {conn : Connection}
    (hann : Announces s.conn cmd conn) : FlushInv log { s with conn := conn } := by
  have hok := h.connOk.announces hann
  cases hann with
  | new => exact h.change hok rfl rfl rfl (.inr (.inr (.inl ⟨rfl, rfl⟩)))
  | close hnew hclose =>
    simp only [shouldCloseConnection, bufEmpty, Bool.and_eq_true, beq_iff_eq] at hclose
    exact h.change hok rfl rfl rfl (.inr (.inr (.inr hclose.1.2)))
  | closeIn => exact h.change hok rfl rfl rfl (.inr (.inr (.inl ⟨rfl, rfl⟩)))
  | closeOut hnew hdel hclose =>
    simp only [shouldCloseOut, bufEmpty, Bool.and_eq_true, beq_iff_eq] at hclose
    exact h.change hok rfl rfl rfl (.inr (.inr (.inr hclose.1)))

/-- What a command of the peer closes has drained or failed, if the command flushes first. -/
theorem FlushInv.commandChange (h : FlushInv log s) {cmd : UInt8}
    (hfirst : cmd = cmdClose ∨ cmd = cmdCloseSrcToDst →
      s.conn.id = 0 ∨ s.conn.outState.eof = true ∨ s.conn.outBuf.length = 0) :
    FlushInv log { s with conn := commandChange cmd s.conn } := by
  have heof : (PortForwarding.commandChange cmd s.conn).outState.eof = s.conn.outState.eof := by
    unfold PortForwarding.commandChange
    split_ifs <;> rfl
  refine h.change (h.connOk.commandChange cmd) (id_commandChange ..) heof
    (congrArg _ (outBuf_commandChange ..)) ?_
  by_cases hcmd : cmd = cmdClose ∨ cmd = cmdCloseSrcToDst
  · exact (hfirst hcmd).imp id (Or.imp id .inr)
  · rw [not_or] at hcmd
    refine .inr (.inr (.inl ⟨delete_commandChange hcmd.1 _, ?_⟩))
    unfold PortForwarding.commandChange
    rw [if_neg hcmd.1, if_neg hcmd.2]
    split_ifs <;> rfl

theorem FlushInv.bufferStep (h : FlushInv log s) (hstep : BufferStep s s')
    (hout : s.conn.id = 0 ∨ s'.conn.outBuf = s.conn.outBuf) : FlushInv log s' := by
  refine ⟨h.calls, h.connOk.bufferStep hstep, fun heof => ?_, ?_⟩
  · rw [hstep.ref]
    exact h.failed (hstep.outState ▸ heof)
  · rw [hstep.ref, hstep.id, hstep.state, hstep.outState]
    rcases hout with hzero | hbuf
    · exact .inl hzero
    · rw [hbuf]
      exact h.pending

/-- Delivering bytes, if the output of the connection has not been told to end. -/
theorem FlushInv.delivered (h : FlushInv log s) (hstep : BufferStep s s')
    (hdel : s.conn.state.delete = false)
    (hfirst : s.conn.outState.delete = false ∨ s.conn.outState.eof = true ∨
      s'.conn.outBuf.contents.drop s.conn.outBuf.length = []) : FlushInv log s' where
  calls := h.calls
  connOk := h.connOk.bufferStep hstep
  failed heof := by
    rw [hstep.ref]
    exact h.failed (hstep.outState ▸ heof)
  pending := by
    rw [hstep.ref, hstep.id, hstep.state, hstep.outState]
    rcases hfirst with hout | heof | hnone
    · exact .inr (.inr (.inl ⟨hdel, hout⟩))
    · exact .inr (.inl (h.failed heof))
    · rw [hstep.length_outBuf hnone]
      exact h.pending

/-- **The other changes keep the invariant**, if the peer flushes first. -/
theorem flushStepInvariant : StepInvariant FlushInv FlushInv PumpEvent.FlushesFirst where
  unbacked _ _ _ _ hlog :=
    flushInv_fresh hlog.flushedLog (by constructor <;> simp [clientSlot]) rfl rfl
  assigned hass h := h.assigned hass
  announces _ hann _ h := h.announces hann
  commandChange hfirst h := h.commandChange hfirst
  moved hstep hout h := h.bufferStep hstep hout
  delivered hstep hdel hfirst h := h.delivered hstep hdel hfirst

/-! ### Runs -/

variable {c : Controller}

/-- Every connection of an endpoint and its log are in order. -/
abbrev Drains (c : Controller) : Prop := Objects FlushInv FlushedLog c.manager

theorem Objects.flushedLog {m : Manager} (h : Objects FlushInv FlushedLog m) :
    FlushedLog m.log := by
  refine flushedLog_of_callsOf fun ref => ?_
  rcases Nat.lt_or_ge ref m.nextRef with hlt | hle
  · by_cases hmem : ref ∈ m.slots.map Slot.ref
    · obtain ⟨s, hs, rfl⟩ := List.mem_map.mp hmem
      exact (h.present s hs).calls
    · exact h.gone ref hlt hmem
  · exact (h.fresh ref hle).flushedLog

variable {bufSize : ℕ+} {accepting : Bool}

theorem Visit.drains (h : Visit bufSize accepting c) (hfirst : ∀ e ∈ c.trace, e.FlushesFirst) :
    Drains c := by
  refine h.objects flushInvariant flushStepInvariant (fun env s hs => ?_) hfirst
  obtain rfl := List.mem_singleton.mp hs
  exact flushInv_fresh ⟨trivial, trivial⟩ (by constructor <;> simp [tunnelConnection]) rfl rfl

/-- **No output is lost** in a run whose peer flushes first, up to the calls of the next
`close_sockets`. -/
theorem flushed_of_guarded (h : Visit bufSize accepting c)
    (hfirst : ∀ e ∈ c.trace, e.FlushesFirst) :
    FlushedLog c.manager.log ∧ FlushedLog (closeSockets c.manager).log := by
  have hdrains := h.drains hfirst
  exact ⟨hdrains.flushedLog, (hdrains.closeSockets flushInvariant).flushedLog⟩

/-- The connecting endpoint opens connection `1`, gets two bytes for it and writes them, and gets
`CMD_CLOSE_SRC_TO_DST` in the same update. -/
def fastReader : Option Controller :=
  updates [⟨tunnelReads [0x7E, 0, 1, 1, 0x7E], samplePump⟩,
      ⟨tunnelReads [0x7E, 1, 10, 20, 0x7E], samplePump⟩,
      ⟨{ tunnelReads [0x7E, 0, 3, 1, 0x7E] with
          ready := some fun ref => { pollin := ref == 0, pollout := ref != 0 }
          sockets :=
            { (tunnelReads [0x7E, 0, 3, 1, 0x7E]).sockets with write := fun _ => .taken 2 } },
        samplePump⟩,
      ⟨quietPoll, samplePump⟩]
    (startController sampleStart sampleBufSize false)

/-- The calls that shut down an output. -/
def SysCall.endsOutput : SysCall → Bool
  | .shutdown _ _ .wr => true
  | _ => false

theorem flushed_of_guarded_fastReader : ∃ c ∈ fastReader,
    c.manager.log.any SysCall.endsOutput = true ∧ FlushedLog c.manager.log := by
  have hrun : fastReader.map (fun c => (c.manager.log.any SysCall.endsOutput,
      decide (∀ e ∈ c.trace, e.FlushesFirst))) = some (true, true) := by decide +kernel
  obtain ⟨c, hc, hrun⟩ := Option.map_eq_some_iff.mp hrun
  simp only [Prod.mk.injEq, decide_eq_true_eq] at hrun
  exact ⟨c, hc, hrun.1,
    (flushed_of_guarded (.reach (reach_updates (.start sampleStart) hc)) hrun.2).1⟩

/-- The same endpoint, when the service reads nothing. -/
def slowReader : Option Controller :=
  updates [⟨tunnelReads [0x7E, 0, 1, 1, 0x7E], samplePump⟩,
      ⟨tunnelReads [0x7E, 1, 10, 20, 0x7E], samplePump⟩,
      ⟨tunnelReads [0x7E, 0, 3, 1, 0x7E], samplePump⟩, ⟨quietPoll, samplePump⟩]
    (startController sampleStart sampleBufSize false)

/-- The output is shut down while it holds two bytes, and no write has been tried. -/
theorem not_flushed_slowReader : ∃ c, Reach 10240 false c ∧
    (∀ ref, writeFailed ref c.manager.log = false) ∧ ¬ FlushedLog c.manager.log := by
  have hrun : slowReader.map (fun c => (c.manager.log.all fun
      | .writev .. => false
      | _ => true, decide (FlushedLog c.manager.log))) = some (true, false) := by decide +kernel
  obtain ⟨c, hc, hrun⟩ := Option.map_eq_some_iff.mp hrun
  simp only [Prod.mk.injEq, decide_eq_false_iff_not] at hrun
  refine ⟨c, reach_updates (.start sampleStart) hc, fun ref => ?_, hrun.2⟩
  rw [writeFailed, List.any_eq_false]
  intro e he
  have hnone := List.all_eq_true.mp hrun.1 e he
  cases e <;> simp_all

end OsTasks.PortForwarding
