import OsTasks.PortForwarding.Evolution

/-!
# Failed writes and the peer

`CMD_CLOSE` and `CMD_CLOSE_DST_TO_SRC` are queued for a connection with an empty output only. A
write fails on an output that is not empty, it leaves the bytes there, and no later write takes
them. So neither command is ever queued for a connection after one of its writes has failed.

## Main definitions

* `WriteFails`: a call of `transmit` in which the write ends the direction.
* `PumpEvent.Reports`: a command that tells the peer that the output is closed.

## Main results

* `handleStateChanges_unread`: a connection with unwritten bytes is not reported.
* `failed_write_unreported`: a failed write is not reported.
* `reported_written`: in every run, a connection that is reported has had no failed write.
-/

namespace OsTasks.PortForwarding

variable {r : WriteResult} {s t : Slot} {conns : Conns} {c : Controller}

/-! ### The failed write -/

/-- In a call of `transmit`, the write of a non-empty output ends the direction. -/
structure WriteFails (r : WriteResult) (s : Slot) : Prop where
  alive : isAlive s.conn.outState = true
  running : isStopped s.conn.state = false
  ready : s.pfd.revents.pollout = true
  unwritten : s.conn.outBuf.length ≠ 0
  failed : getRwErrorCause (bufWrite r s.conn.outBuf).1 r.errno ≠ .none

theorem outBuf_closeSocket (s : Slot) : (closeSocket s).1.conn.outBuf = s.conn.outBuf := by
  unfold closeSocket
  split_ifs <;> rfl

/-- The bytes are still there after the failed write. -/
theorem WriteFails.length_outBuf (h : WriteFails r s) :
    (transmit r s).1.conn.outBuf.length ≠ 0 := by
  have hcalls : (s.pfd.revents.pollout && !bufEmpty s.conn.outBuf) = true := by
    rw [h.ready, bufEmpty, beq_eq_false_iff_ne.mpr h.unwritten]
    rfl
  unfold transmit
  rw [h.alive, h.running, if_neg (by decide), if_pos hcalls]
  exact (length_bufWrite_of_failed h.failed).trans_ne h.unwritten

/-! ### What is queued -/

/-- A command is queued that tells the peer of the connection at `ref` that its output is closed. -/
def PumpEvent.Reports (ref : ℕ) : PumpEvent → Prop
  | .queued t cmd => t.ref = ref ∧ (cmd = cmdClose ∨ cmd = cmdCloseDstToSrc)
  | _ => False

/-- One turn of `handle_state_changes`, so far: its events are about the slot `s`, and the output of
the slot is reported only if it is empty. -/
structure TurnFor (s : Slot) (t : Turn) : Prop where
  ref : t.slot.ref = s.ref
  outBuf : t.slot.conn.outBuf = s.conn.outBuf
  events : ∀ e ∈ t.events, ∀ ref, e.Reports ref → s.ref = ref ∧ s.conn.outBuf.length = 0

theorem TurnFor.send {t : Turn} (h : TurnFor s t) {cmd : UInt8} {change : Connection → Connection}
    (hchange : ∀ conn, (change conn).outBuf = conn.outBuf)
    (hcmd : cmd = cmdClose ∨ cmd = cmdCloseDstToSrc → s.conn.outBuf.length = 0) :
    TurnFor s (t.send cmd change) := by
  unfold Turn.send
  split
  · exact ⟨h.ref, h.outBuf, h.events⟩
  · refine ⟨h.ref, (hchange _).trans h.outBuf, List.forall_mem_cons.mpr ⟨?_, h.events⟩⟩
    exact fun ref hreports => ⟨h.ref.symm.trans hreports.1, hcmd hreports.2⟩

theorem turnFor_stateTurn (s : Slot) (queue : CmdQueue) : TurnFor s (stateTurn s queue) := by
  have hnew : TurnFor s (announceNew { slot := s, queue := queue }) := by
    have hstart : TurnFor s { slot := s, queue := queue } :=
      ⟨rfl, rfl, fun _ he => absurd he List.not_mem_nil⟩
    unfold announceNew
    split
    · exact hstart.send (fun _ => rfl) fun hcmd => absurd hcmd (by decide)
    · exact hstart
  unfold stateTurn
  generalize announceNew { slot := s, queue := queue } = t at hnew
  dsimp only
  split_ifs with hagain hclose hagain'
  · exact hnew
  · -- `CMD_CLOSE`
    have hempty : s.conn.outBuf.length = 0 := by
      rw [shouldCloseConnection, Bool.and_eq_true, Bool.and_eq_true, bufEmpty_iff,
        bufEmpty_iff] at hclose
      exact hnew.outBuf ▸ hclose.1.2
    have hsend : TurnFor s (t.send cmdClose fun c =>
      { c with state := { c.state with delete := true } }) :=
      hnew.send (fun _ => rfl) fun _ => hempty
    exact ⟨hsend.ref, hsend.outBuf, hsend.events⟩
  all_goals
    have hin : TurnFor s (announceCloseIn t) := by
      unfold announceCloseIn
      split
      · exact hnew.send (fun _ => rfl) fun hcmd => absurd hcmd (by decide)
      · exact hnew
  · exact hin
  · -- `CMD_CLOSE_DST_TO_SRC`
    unfold announceCloseOut
    split
    · rename_i hout
      refine hin.send (fun _ => rfl) fun _ => ?_
      rw [Bool.and_eq_true, shouldCloseOut, Bool.and_eq_true, bufEmpty_iff] at hout
      exact hin.outBuf ▸ hout.2.1
    · exact hin

/-- The connections at `ref` have unwritten bytes. -/
def UnwrittenAt (ref : ℕ) (slots : List Slot) : Prop :=
  ∀ s ∈ slots, s.ref = ref → s.conn.outBuf.length ≠ 0

theorem UnwrittenAt.apply {ref : ℕ} (h : UnwrittenAt ref c.slots) (hs : s ∈ c.slots) {t : Turn}
    (ht : TurnFor s t) : UnwrittenAt ref (c.apply s t).slots := by
  intro u' hu' href
  obtain ⟨u, hu, rfl⟩ := List.mem_map.mp hu'
  by_cases hus : u.ref = s.ref
  · rw [if_pos hus] at href ⊢
    exact (congrArg _ ht.outBuf).trans_ne (h s hs (hus.symm.trans href))
  · rw [if_neg hus] at href ⊢
    exact h u hu href

/-- The loop reports no connection with unwritten bytes. -/
theorem stateLoop_unwritten {ref : ℕ} (ids : List ℕ) (h : UnwrittenAt ref c.slots) :
    ∃ events, (stateLoop ids conns c).2.1.trace = events ++ c.trace ∧
      ∀ e ∈ events, ¬ e.Reports ref := by
  induction ids generalizing conns c with
  | nil => exact ⟨[], rfl, fun _ he => absurd he List.not_mem_nil⟩
  | cons i ids ih =>
    rw [stateLoop]
    cases hs : lookup c.slots conns i with
    | none => exact ih h
    | some s =>
      have hmem := (lookup_eq_some hs).1
      have hturn := turnFor_stateTurn s c.pump.cmdQueue
      have hevents : ∀ e ∈ (stateTurn s c.pump.cmdQueue).events, ¬ e.Reports ref := by
        intro e he hreports
        obtain ⟨href, hempty⟩ := hturn.events e he ref hreports
        exact h s hmem href hempty
      dsimp only
      split_ifs
      · exact ⟨_, rfl, hevents⟩
      all_goals
        obtain ⟨later, htrace, hlater⟩ := ih (h.apply hmem hturn)
        refine ⟨later ++ (stateTurn s c.pump.cmdQueue).events, ?_, fun e he =>
          (List.mem_append.mp he).elim (hlater e) (hevents e)⟩
        rw [htrace, List.append_assoc]
        rfl

/-- **A connection with unwritten bytes is not reported**, whatever room the queue has. -/
theorem handleStateChanges_unwritten (conns : Conns) (tunnel : Slot) {ref : ℕ}
    (h : UnwrittenAt ref c.slots) :
    ∃ events, (handleStateChanges conns tunnel c).2.1.trace = events ++ c.trace ∧
      ∀ e ∈ events, ¬ e.Reports ref := by
  unfold handleStateChanges
  split_ifs
  · exact ⟨[], rfl, fun _ he => absurd he List.not_mem_nil⟩
  · exact stateLoop_unwritten _ h

/-- A run of `handle_state_changes` tells the peer that the output of the connection at `ref` is
closed. -/
def ReportedBy (conns : Conns) (tunnel : Slot) (c : Controller) (ref : ℕ) : Prop :=
  ∃ events, (handleStateChanges conns tunnel c).2.1.trace = events ++ c.trace ∧
    ∃ e ∈ events, e.Reports ref

/-- **A failed write is not reported.** After `transmit` and `close_sockets` the connection may have
got an id; in no state, and with no queue, does `handle_state_changes` tell the peer. -/
theorem failed_write_unreported (tunnel : Slot) (h : WriteFails r s)
    (hnd : (c.slots.map Slot.ref).Nodup) (ht : t ∈ c.slots) (href : t.ref = s.ref)
    (hconn : t.conn = { (closeSocket (transmit r s).1).1.conn with id := t.conn.id }) :
    ¬ ReportedBy conns tunnel c s.ref := by
  have hunwritten : UnwrittenAt s.ref c.slots := by
    intro u hu huref
    obtain rfl := eq_of_ref_eq hnd hu ht (huref.trans href.symm)
    rw [hconn]
    dsimp only
    rw [outBuf_closeSocket]
    exact h.length_outBuf
  obtain ⟨events, htrace, hnone⟩ := handleStateChanges_unwritten conns tunnel hunwritten
  rintro ⟨events', htrace', e, he, hreports⟩
  rw [List.append_cancel_right (htrace'.symm.trans htrace)] at he
  exact hnone e he hreports

/-- Connection `1`, with one byte that its socket is ready to take. -/
def refusedSlot : Slot where
  ref := 1
  conn :=
    { id := 1, state := {}, inState := {}, outState := {}, inBuf := bufCreate (fun _ => 0) 4
      outBuf := (bufCreate (fun _ => 0) 4).put [10] }
  pfd := ⟨7, ⟨true, true⟩, ⟨false, true⟩⟩
  own := 7
  inc := 0

/-- The endpoint after the socket has refused the byte. -/
def afterRefusal : Controller :=
  let c := startController sampleStart sampleBufSize false
  c.setSlots (c.slots ++ [(closeSocket (transmit (.error .epipe) refusedSlot).1).1])

theorem failed_write_unreported_refused :
    ∃ tunnel, lookup afterRefusal.slots afterRefusal.sorted 0 = some tunnel ∧
      ¬ ReportedBy afterRefusal.sorted tunnel afterRefusal 1 :=
  ⟨_, rfl, failed_write_unreported (r := .error .epipe) (s := refusedSlot)
    (t := (closeSocket (transmit (.error .epipe) refusedSlot).1).1) _
    ⟨by decide, by decide, by decide, by decide, by decide⟩ (by decide)
    (List.mem_append_right _ (List.mem_singleton_self _)) rfl rfl⟩

/-- The connections of which a write has failed. -/
def failedWrites (log : List SysCall) : List ℕ :=
  log.filterMap fun
    | .writev s _ cause => if cause = .none then none else some s.ref
    | _ => none

/-- The connections and the commands that were queued for them. -/
def queuedFor (trace : List PumpEvent) : List (ℕ × UInt8) :=
  trace.filterMap fun
    | .queued s cmd => some (s.ref, cmd)
    | _ => none

theorem not_reports_of_queuedFor {ref : ℕ} {trace : List PumpEvent} (h : queuedFor trace = []) :
    ∀ e ∈ trace, ¬ e.Reports ref := by
  intro e he hreports
  cases e with
  | queued s cmd =>
    exact absurd (List.filterMap_eq_nil_iff.mp h _ he) (Option.some_ne_none _)
  | _ => exact hreports

/-- A write of connection `1` has failed, its socket has been shut down for writing, the queue is
empty, and `handle_state_changes` has come to its end. -/
theorem not_failed_write_reported : ∃ c ∈ serving 4 [10, 0x7E], ∃ c' conns,
    pumpEntry (clientBreaks []) c = some (c', conns) ∧ failedWrites c'.manager.log = [1] ∧
      cmdqLength c'.pump.cmdQueue = 0 ∧ ∀ e ∈ c'.trace, ¬ e.Reports 1 := by
  have hrun : ((serving 4 [10, 0x7E]).bind (pumpEntry (clientBreaks []))).map (fun r =>
      (failedWrites r.1.manager.log, cmdqLength r.1.pump.cmdQueue, queuedFor r.1.trace)) =
        some ([1], 0, []) := by decide +kernel
  obtain ⟨⟨c', conns⟩, hbind, hrun⟩ := Option.map_eq_some_iff.mp hrun
  obtain ⟨c, hc, hentry⟩ := Option.bind_eq_some_iff.mp hbind
  simp only [Prod.mk.injEq] at hrun
  exact ⟨c, hc, c', conns, hentry, hrun.1, hrun.2.1, not_reports_of_queuedFor hrun.2.2⟩

/-! ### Runs -/

variable {bufSize : ℕ+} {accepting : Bool}

theorem Announces.length_outBuf {cmd : UInt8} {conn : Connection} (h : Announces s.conn cmd conn)
    (hcmd : cmd = cmdClose ∨ cmd = cmdCloseDstToSrc) : s.conn.outBuf.length = 0 := by
  cases h with
  | new => exact absurd hcmd (by decide)
  | close _ hclose =>
    rw [shouldCloseConnection, Bool.and_eq_true, Bool.and_eq_true, bufEmpty_iff,
      bufEmpty_iff] at hclose
    exact hclose.1.2
  | closeIn => exact absurd hcmd (by decide)
  | closeOut _ _ hclose =>
    rw [shouldCloseOut, Bool.and_eq_true, bufEmpty_iff] at hclose
    exact hclose.1

/-- The commands in a trace that report an output are about connections without a failed write. -/
def ReportsWritten (trace : List PumpEvent) : Prop :=
  ∀ s cmd, .queued s cmd ∈ trace → cmd = cmdClose ∨ cmd = cmdCloseDstToSrc →
    s.conn.outState.eof = false

/-- **Only connections without a failed write are reported**, in every run. -/
theorem reported_written (h : Visit bufSize accepting c) : ReportsWritten c.trace := by
  refine h.induction (P := fun c => ReportsWritten c.trace)
    (fun env s cmd hmem => absurd hmem List.not_mem_nil) ?_
  intro c c' hwf hstep ih
  rcases hstep.trace with htrace | ⟨e, he, htrace⟩
  · exact htrace ▸ ih
  intro s cmd hmem hcmd
  rw [htrace, List.mem_cons] at hmem
  rcases hmem with rfl | hmem
  · cases he with
    | queued hs _ _ hann =>
      rw [← Bool.not_eq_true]
      exact fun heof => (hwf.slotOk s hs).connOk.unsent heof (hann.length_outBuf hcmd)
    | quiet hquiet => nomatch hquiet
  · exact ih s cmd hmem hcmd

end OsTasks.PortForwarding
