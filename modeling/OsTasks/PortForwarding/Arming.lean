import OsTasks.PortForwarding.Flush
import OsTasks.PortForwarding.Handshake
import OsTasks.PortForwarding.InputRoom

/-!
# Polling for what would be done

`receive` and `transmit` request `POLLIN` and `POLLOUT` anew after each round, but return before
that for a direction that has ended and for a stopped connection. What `handle_state_changes` stops,
and the directions that `on_command` ends, stay requested, and `poll` reports on them again and
again.

## Main definitions

* `PolledForUse`: at the call of `poll`, what is requested for a connection would be done.
* `ArmingOk`: the invariant of a connection.
* `PumpEvent.KeepsArming`: the changes that end nothing `poll` is asked for.

## Main results

* `polledForUse_of_guarded`: in a run with such changes only, all that is requested would be done.
* `not_polledForUse`: a client that is announced, and a direction that the peer has closed.
-/

namespace OsTasks.PortForwarding

variable {s s' : Slot}

/-! ### What is requested -/

/-- `receive` would read from the connection. -/
structure WouldRead (s : Slot) : Prop where
  opened : s.conn.state.closed = false
  alive : isAlive s.conn.inState = true
  running : s.conn.state.stopped = false
  room : bufFull s.conn.inBuf = false

/-- `transmit` would write to the connection. -/
structure WouldWrite (s : Slot) : Prop where
  opened : s.conn.state.closed = false
  alive : isAlive s.conn.outState = true
  running : s.conn.state.stopped = false
  unsent : bufEmpty s.conn.outBuf = false

instance : DecidablePred WouldRead := fun s =>
  decidable_of_iff (s.conn.state.closed = false ∧ isAlive s.conn.inState = true ∧
    s.conn.state.stopped = false ∧ bufFull s.conn.inBuf = false)
    ⟨fun h => ⟨h.1, h.2.1, h.2.2.1, h.2.2.2⟩, fun h => ⟨h.opened, h.alive, h.running, h.room⟩⟩

instance : DecidablePred WouldWrite := fun s =>
  decidable_of_iff (s.conn.state.closed = false ∧ isAlive s.conn.outState = true ∧
    s.conn.state.stopped = false ∧ bufEmpty s.conn.outBuf = false)
    ⟨fun h => ⟨h.1, h.2.1, h.2.2.1, h.2.2.2⟩, fun h => ⟨h.opened, h.alive, h.running, h.unsent⟩⟩

/-- What `poll` is asked for about the connection would be done. -/
def SlotPolledForUse (s : Slot) : Prop :=
  0 ≤ s.pfd.fd → (s.pfd.events.pollin = true → WouldRead s) ∧
    (s.pfd.events.pollout = true → WouldWrite s)

instance : DecidablePred SlotPolledForUse := fun s =>
    inferInstanceAs (Decidable (0 ≤ s.pfd.fd → _ ∧ _))

/-- At the next call of `poll`, what it is asked for would be done. -/
def PolledForUse (c : Controller) : Prop := ∀ s ∈ (beforePoll c.manager).slots, SlotPolledForUse s

instance : DecidablePred PolledForUse := fun c =>
  inferInstanceAs (Decidable (∀ s ∈ (beforePoll c.manager).slots, SlotPolledForUse s))

/-! ### The invariant of a connection -/

/-- The socket of the connection is left open by the next `close_sockets`. -/
def StaysOpen (s : Slot) : Prop := s.conn.state.closed = false ∧ shouldCloseSocket s.conn = false

instance (s : Slot) : Decidable (StaysOpen s) := inferInstanceAs (Decidable (_ ∧ _))

/-- `transmit` writes nothing to the connection: its output is empty, or has ended. -/
def NothingToWrite (c : Connection) : Prop := c.outBuf.length = 0 ∨ isAlive c.outState = false

instance (c : Connection) : Decidable (NothingToWrite c) := inferInstanceAs (Decidable (_ ∨ _))

/-- As long as the socket stays open, `POLLIN` is requested only for a living input and `POLLOUT`
only when there is something to write, and a stopped connection is not polled. -/
structure ArmingOk (s : Slot) : Prop where
  connOk : ConnOk s.conn
  parked : s.conn.state.closed = true → s.pfd.fd < 0
  announced : s.conn.state.stopped = true → 1 ≤ s.conn.id
  input : StaysOpen s → s.pfd.events.pollin = true →
    isAlive s.conn.inState = true ∧ (s.conn.state.stopped = false ∨ s.pfd.fd < 0)
  output : StaysOpen s → s.pfd.events.pollout = true → ¬NothingToWrite s.conn
  quiet : StaysOpen s → s.conn.state.stopped = true → NothingToWrite s.conn

theorem staysOpen_iff (s : Slot) : StaysOpen s ↔ s.conn.state.closed = false ∧
    shouldClose s.conn.state = false ∧
      (isAlive s.conn.inState = true ∨ isAlive s.conn.outState = true) := by
  unfold StaysOpen shouldCloseSocket
  cases isAlive s.conn.inState <;> cases isAlive s.conn.outState <;> simp

/-- A socket that stays open after a change that only ends directions has been so before. -/
theorem StaysOpen.before (h : StaysOpen s') (hstate : s'.conn.state = s.conn.state)
    (hin : isAlive s.conn.inState = false → isAlive s'.conn.inState = false)
    (hout : isAlive s.conn.outState = false → isAlive s'.conn.outState = false) : StaysOpen s := by
  rw [staysOpen_iff, hstate] at h
  rw [staysOpen_iff]
  refine ⟨h.1, h.2.1, h.2.2.imp (fun halive => ?_) fun halive => ?_⟩
  · exact Bool.of_not_eq_false fun hdead => by simp [hin hdead] at halive
  · exact Bool.of_not_eq_false fun hdead => by simp [hout hdead] at halive

/-- A connection that has just been opened. -/
theorem armingOk_fresh (hok : ConnOk s.conn) (hstate : s.conn.state.closed = false)
    (hrunning : s.conn.state.stopped = false) (hin : isAlive s.conn.inState = true)
    (hpollout : s.pfd.events.pollout = false) : ArmingOk s where
  connOk := hok
  parked hclosed := absurd (hstate.symm.trans hclosed) Bool.false_ne_true
  announced hstop := absurd (hrunning.symm.trans hstop) Bool.false_ne_true
  input _ _ := ⟨hin, .inl hrunning⟩
  output _ hpoll := absurd (hpollout.symm.trans hpoll) Bool.false_ne_true
  quiet _ hstop := absurd (hrunning.symm.trans hstop) Bool.false_ne_true

theorem isAlive_closeDirection_eq (state : ConnState) :
    isAlive (closeDirection state) = isAlive state := by
  cases halive : isAlive state with
  | true => rw [closeDirection_of_alive halive, halive]
  | false => exact isAlive_closeDirection halive

theorem isAlive_delete (state : ConnState) : isAlive { state with delete := true } = false := by
  simp [isAlive]

theorem isAlive_markEof {state : ConnState} (cause : RwCause) (h : isAlive state = false) :
    isAlive (markEof cause state) = false := by
  cases cause with
  | none => exact h
  | eof => simp [markEof, isAlive]
  | error => simp [markEof, isAlive]

/-! ### The operations of the manager -/

theorem ArmingOk.close (h : ArmingOk s) : ArmingOk (closeSocket s).1 := by
  have hok := h.connOk.slotOp (.close s)
  rcases closeSocket_cases s with ⟨-, h'⟩ | ⟨-, -, h'⟩ | ⟨hopen, hclose, h'⟩ <;> rw [h'] at hok ⊢
  · exact h
  · have hshut : ¬StaysOpen s.shut := fun hs => Bool.noConfusion hs.1
    exact ⟨hok, fun _ => (by decide : (-1 : ℤ) < 0), h.announced, fun hs => absurd hs hshut,
      fun hs => absurd hs hshut, fun hs => absurd hs hshut⟩
  · have hstays : StaysOpen s := ⟨hopen, hclose⟩
    have hnothing : NothingToWrite s.shutDirections.conn ↔ NothingToWrite s.conn := by
      unfold NothingToWrite Slot.shutDirections
      rw [isAlive_closeDirection_eq]
    refine ⟨hok, h.parked, h.announced, fun _ hpoll => ?_, fun _ hpoll => ?_, fun _ hstop => ?_⟩
    · obtain ⟨halive, hrunning⟩ := h.input hstays hpoll
      exact ⟨(isAlive_closeDirection_eq _).trans halive, hrunning⟩
    · exact fun hnone => h.output hstays hpoll (hnothing.mp hnone)
    · exact hnothing.mpr (h.quiet hstays hstop)

theorem ArmingOk.arm (h : ArmingOk s) : ArmingOk (armOutput s) := by
  unfold armOutput
  split_ifs with hempty halive
  · exact h
  · have hwrite : ¬NothingToWrite s.conn := by
      rw [NothingToWrite, not_or, ← bufEmpty_iff, halive]
      exact ⟨hempty, Bool.noConfusion⟩
    have hrunning (hs : StaysOpen s) : s.conn.state.stopped = false :=
      Bool.eq_false_iff.mpr fun hstop => hwrite (h.quiet hs hstop)
    refine ⟨h.connOk, fun hclosed => ?_, h.announced, fun hs hpoll => ?_, fun _ _ => hwrite,
      h.quiet⟩
    · have hout := h.connOk.outClosed hclosed
      rw [isAlive_iff] at halive
      exact absurd (halive.2.1.symm.trans hout) Bool.false_ne_true
    · have hpollin : s.pfd.events.pollin = true := by simpa [setPollfdFlags] using hpoll
      exact ⟨(h.input hs hpollin).1, .inl (hrunning hs)⟩
  · exact h

/-- `POLLIN` is requested anew. -/
theorem ArmingOk.rearmIn (h : ArmingOk s) (hopen : s.conn.state.closed = false)
    (hrunning : s.conn.state.stopped = false) {buf : RoundBuffer} {inState : ConnState}
    (hdead : isAlive s.conn.inState = false → isAlive inState = false)
    (hok : ConnOk { s.conn with inBuf := buf, inState := inState }) :
    ArmingOk
      { s with
        conn := { s.conn with inBuf := buf, inState := inState }
        pfd := rearmIn s.pfd { s.conn with inBuf := buf, inState := inState } } where
  connOk := hok
  parked hclosed := absurd (hopen.symm.trans hclosed) Bool.false_ne_true
  announced hstop := absurd (hrunning.symm.trans hstop) Bool.false_ne_true
  input _ hpoll := by
    refine ⟨?_, .inl hrunning⟩
    unfold PortForwarding.rearmIn at hpoll
    by_contra hdead'
    rw [Bool.not_eq_true] at hdead'
    simp [hdead'] at hpoll
  output hs hpoll :=
    h.output (hs.before rfl hdead fun hout => hout) ((pollout_rearmIn _ _).symm.trans hpoll)
  quiet _ hstop := absurd (hrunning.symm.trans hstop) Bool.false_ne_true

/-- `POLLOUT` is requested anew. -/
theorem ArmingOk.rearmOut (h : ArmingOk s) (hopen : s.conn.state.closed = false)
    (hrunning : s.conn.state.stopped = false) {buf : RoundBuffer} {outState : ConnState}
    (hdead : isAlive s.conn.outState = false → isAlive outState = false)
    (hok : ConnOk { s.conn with outBuf := buf, outState := outState }) :
    ArmingOk
      { s with
        conn := { s.conn with outBuf := buf, outState := outState }
        pfd := rearmOut s.pfd { s.conn with outBuf := buf, outState := outState } } where
  connOk := hok
  parked hclosed := absurd (hopen.symm.trans hclosed) Bool.false_ne_true
  announced hstop := absurd (hrunning.symm.trans hstop) Bool.false_ne_true
  input hs hpoll :=
    ⟨(h.input (hs.before rfl (fun hin => hin) hdead) ((pollin_rearmOut _ _).symm.trans hpoll)).1,
      .inl hrunning⟩
  output _ hpoll hnothing := by
    unfold PortForwarding.rearmOut at hpoll
    rcases hnothing with hempty | hdead'
    · simp [bufEmpty, show buf.length = 0 from hempty] at hpoll
    · simp [show isAlive outState = false from hdead'] at hpoll
  quiet _ hstop := absurd (hrunning.symm.trans hstop) Bool.false_ne_true

theorem ArmingOk.receive (h : ArmingOk s) (halive : isAlive s.conn.state = true) (r : ReadResult) :
    ArmingOk (receive r s).1 := by
  have hok := h.connOk.slotOp (.receive r s halive)
  have hopen := ((isAlive_iff _).mp halive).2.1
  revert hok
  unfold PortForwarding.receive
  split_ifs with hearly
  · exact fun _ => h
  all_goals
    rw [Bool.or_eq_true, not_or, Bool.not_eq_true, isStopped, Bool.not_eq_true] at hearly
  · exact h.rearmIn hopen hearly.2 (isAlive_markEof _)
  · exact h.rearmIn hopen hearly.2 fun hdead => hdead

theorem ArmingOk.transmit (h : ArmingOk s) (halive : isAlive s.conn.state = true)
    (r : WriteResult) :
    ArmingOk (transmit r s).1 := by
  have hok := h.connOk.slotOp (.transmit r s halive)
  have hopen := ((isAlive_iff _).mp halive).2.1
  revert hok
  unfold PortForwarding.transmit
  split_ifs with hearly
  · exact fun _ => h
  all_goals
    rw [Bool.or_eq_true, not_or, Bool.not_eq_true, isStopped, Bool.not_eq_true] at hearly
  · exact h.rearmOut hopen hearly.2 (isAlive_markEof _)
  · exact h.rearmOut hopen hearly.2 fun hdead => hdead

/-- **The operations of the manager keep the invariant.** -/
theorem SlotOp.armingOk (hop : SlotOp s s') (h : ArmingOk s) : ArmingOk s' := by
  cases hop with
  | close => exact h.close
  | arm => exact h.arm
  | poll => exact ⟨h.connOk, h.parked, h.announced, h.input, h.output, h.quiet⟩
  | receive r _ halive => exact h.receive halive r
  | transmit r _ halive => exact h.transmit halive r

/-- **Polling keeps the invariant.** A new connection is polled for its input. -/
theorem armingInvariant :
    ObjectInvariant (fun _ => ArmingOk) (fun _ => ArmingOk) fun _ => True where
  close _ _ h := h.close
  arm _ _ h := h.arm
  poll ready _ _ h := (SlotOp.poll ready _).armingOk h
  serve env _ s h := (serve_slotRun env s).keep SlotOp.armingOk h
  weaken _ _ h := h
  client _ _ _ _ _ _ := armingOk_fresh (by constructor <;> simp [clientSlot]) rfl rfl rfl rfl
  server _ _ _ _ _ _ _ _ _ := armingOk_fresh (by constructor <;> simp [serverSlot]) rfl rfl rfl rfl
  unused _ _ _ _ := trivial
  leave _ _ _ _ := trivial
  ignore _ _ := trivial

/-! ### The other changes -/

/-- The changes that end nothing that `poll` is asked for, as long as the socket stays open:
`CMD_NEW` is queued for a connection that is not polled for input and has nothing to write,
`CMD_CLOSE_SRC_TO_DST` and `CMD_CLOSE_DST_TO_SRC` find the direction they end not requested, and no
bytes are delivered to a stopped connection that could be written. -/
def PumpEvent.KeepsArming : PumpEvent → Prop
  | .queued s cmd => cmd = cmdNew → StaysOpen s →
    (s.pfd.events.pollin = false ∨ s.pfd.fd < 0) ∧ NothingToWrite s.conn
  | .handled command (some s) _ _ => StaysOpen s →
    (command.cmd = cmdCloseSrcToDst → isAlive s.conn.inState = true →
      s.pfd.events.pollout = false) ∧
    (command.cmd = cmdCloseDstToSrc → isAlive s.conn.outState = true → s.pfd.events.pollin = false)
  | .delivered _ _ s bytes => StaysOpen s → s.conn.state.stopped = true → bytes ≠ [] →
    isAlive s.conn.outState = false
  | _ => True

instance : DecidablePred PumpEvent.KeepsArming
  | .queued .. | .handled _ (some _) _ _ | .delivered .. => inferInstanceAs (Decidable (_ → _))
  | .handled _ none _ _ | .received .. | .sent .. | .dropped .. | .encoded .. => isTrue trivial

theorem ArmingOk.assigned {stack : List ℤ} (h : ArmingOk s) (hass : Assigned stack s s') :
    ArmingOk s' := by
  obtain rfl | ⟨hneg, id, -, rfl⟩ := hass
  · exact h
  · have hok := h.connOk
    refine ⟨⟨hok.1, hok.2, hok.3, hok.4, hok.5, hok.6, hok.7⟩, h.parked, fun hstop => ?_, h.input,
      h.output, h.quiet⟩
    have hid := h.announced hstop
    omega

/-- A connection that is deleted does not keep its socket. -/
theorem ArmingOk.delete (h : ArmingOk s)
    (hok : ConnOk { s.conn with state := { s.conn.state with delete := true } }) :
    ArmingOk
      { s with conn := { s.conn with state := { s.conn.state with delete := true } } } := by
  have hclosing : ¬StaysOpen
      { s with conn := { s.conn with state := { s.conn.state with delete := true } } } := by
    simp [staysOpen_iff, shouldClose]
  exact ⟨hok, h.parked, h.announced, fun hs => absurd hs hclosing, fun hs => absurd hs hclosing,
    fun hs => absurd hs hclosing⟩

/-- An input can be ended if it is not requested, or the output has ended. -/
theorem ArmingOk.endInput (h : ArmingOk s)
    (hok : ConnOk { s.conn with inState := { s.conn.inState with delete := true } })
    (hnone : StaysOpen s → isAlive s.conn.outState = true → s.pfd.events.pollin = false) :
    ArmingOk
      { s with conn := { s.conn with inState := { s.conn.inState with delete := true } } } := by
  have hbefore (hs : StaysOpen
      { s with conn := { s.conn with inState := { s.conn.inState with delete := true } } }) :
      StaysOpen s ∧ isAlive s.conn.outState = true := by
    refine ⟨hs.before rfl (fun _ => isAlive_delete _) fun hout => hout, ?_⟩
    exact ((staysOpen_iff _).mp hs).2.2.resolve_left fun hin => by simp [isAlive] at hin
  refine ⟨hok, h.parked, h.announced, fun hs hpoll => ?_, fun hs => h.output (hbefore hs).1,
    fun hs => h.quiet (hbefore hs).1⟩
  obtain ⟨hopen, halive⟩ := hbefore hs
  exact absurd ((hnone hopen halive).symm.trans hpoll) Bool.false_ne_true

/-- An output can be ended if it is not requested, or the input has ended. -/
theorem ArmingOk.endOutput (h : ArmingOk s)
    (hok : ConnOk { s.conn with outState := { s.conn.outState with delete := true } })
    (hnone : StaysOpen s → isAlive s.conn.inState = true → s.pfd.events.pollout = false) :
    ArmingOk
      { s with conn := { s.conn with outState := { s.conn.outState with delete := true } } } := by
  have hbefore (hs : StaysOpen
      { s with conn := { s.conn with outState := { s.conn.outState with delete := true } } }) :
      StaysOpen s ∧ isAlive s.conn.inState = true := by
    refine ⟨hs.before rfl (fun hin => hin) fun _ => isAlive_delete _, ?_⟩
    exact ((staysOpen_iff _).mp hs).2.2.resolve_right fun hout => by simp [isAlive] at hout
  refine ⟨hok, h.parked, h.announced, fun hs => h.input (hbefore hs).1, fun hs hpoll => ?_,
    fun _ _ => .inr (isAlive_delete _)⟩
  obtain ⟨hopen, halive⟩ := hbefore hs
  exact absurd ((hnone hopen halive).symm.trans hpoll) Bool.false_ne_true

/-- What `handle_state_changes` closes has not been requested any more. -/
theorem ArmingOk.announces {cmd : UInt8} {conn : Connection} (h : ArmingOk s) (hid : 1 ≤ s.conn.id)
    (hann : Announces s.conn cmd conn) (hkeeps : PumpEvent.KeepsArming (.queued s cmd)) :
    ArmingOk { s with conn := conn } := by
  have hok := h.connOk.announces hann
  cases hann with
  | new =>
    refine ⟨hok, h.parked, fun _ => hid, fun hs hpoll => ?_, h.output, fun hs _ =>
      (hkeeps rfl hs).2⟩
    refine ⟨(h.input hs hpoll).1, .inr ((hkeeps rfl hs).1.resolve_left fun hnone => ?_)⟩
    exact Bool.false_ne_true (hnone.symm.trans hpoll)
  | close => exact h.delete hok
  | closeIn _ _ hclose =>
    rw [shouldCloseIn, Bool.and_eq_true] at hclose
    refine h.endInput hok fun hs _ => Bool.eq_false_iff.mpr fun hpoll => ?_
    exact absurd (h.input hs hpoll).1 (by simp [isAlive, hclose.2])
  | closeOut _ _ hclose =>
    rw [shouldCloseOut, Bool.and_eq_true] at hclose
    refine h.endOutput hok fun hs _ => Bool.eq_false_iff.mpr fun hpoll => ?_
    exact h.output hs hpoll (.inr (by simp [isAlive, hclose.2]))

/-- What a command of the peer ends has not been requested, if the command keeps the arming. -/
theorem ArmingOk.commandChange {command : Command} {stack : List ℤ} {opened : Bool} (h : ArmingOk s)
    (hkeeps : PumpEvent.KeepsArming (.handled command (some s) stack opened)) :
    ArmingOk { s with conn := commandChange command.cmd s.conn } := by
  have hok := h.connOk.commandChange command.cmd
  revert hok
  unfold PortForwarding.commandChange
  split_ifs with hclose hout hin hack
  · exact h.delete
  · exact fun hok => h.endOutput hok fun hs => (hkeeps hs).1 hout
  · exact fun hok => h.endInput hok fun hs => (hkeeps hs).2 hin
  · exact fun hok => ⟨hok, h.parked, fun hstop => Bool.noConfusion hstop,
      fun hs hpoll => ⟨(h.input hs hpoll).1, .inl rfl⟩, h.output, fun _ hstop =>
        Bool.noConfusion hstop⟩
  · exact fun _ => h

/-- Bytes are moved that leave nothing to write to a stopped connection. -/
theorem ArmingOk.bufferStep (h : ArmingOk s) (hstep : BufferStep s s')
    (hquiet : StaysOpen s → s.conn.state.stopped = true → NothingToWrite s.conn →
      NothingToWrite s'.conn) : ArmingOk s' := by
  have hopen : StaysOpen s' → StaysOpen s := fun hs =>
    hs.before hstep.state (fun hin => hstep.inState ▸ hin) fun hout => hstep.outState ▸ hout
  refine ⟨h.connOk.bufferStep hstep, ?_, ?_, fun hs hpoll => ?_, fun hs hpoll hnothing => ?_,
    fun hs hstop => ?_⟩
  · rw [hstep.state, hstep.pfd]
    exact h.parked
  · rw [hstep.state, hstep.id]
    exact h.announced
  · rw [hstep.inState, hstep.state, hstep.pfd]
    exact h.input (hopen hs) (hstep.pfd ▸ hpoll)
  · refine h.output (hopen hs) (hstep.pfd ▸ hpoll) ?_
    rw [NothingToWrite, hstep.outState] at hnothing
    exact hnothing.imp_left fun hzero => Nat.le_zero.mp (hstep.outBuf.trans_eq hzero)
  · have hstopped := hstep.state ▸ hstop
    exact hquiet (hopen hs) hstopped (h.quiet (hopen hs) hstopped)

/-- Only a connection that is written gets bytes. -/
theorem ArmingOk.delivered {id : ℕ} (h : ArmingOk s) (hstep : BufferStep s s')
    (hkeeps : PumpEvent.KeepsArming
      (.delivered id 0 s (s'.conn.outBuf.contents.drop s.conn.outBuf.length))) : ArmingOk s' := by
  refine h.bufferStep hstep fun hs hstop hnothing => ?_
  rw [NothingToWrite, hstep.outState]
  by_cases hnone : s'.conn.outBuf.contents.drop s.conn.outBuf.length = []
  · rw [hstep.length_outBuf hnone]
    exact hnothing
  · exact .inr (hkeeps hs hstop hnone)

/-- **The other changes keep the invariant**, if they end nothing that is requested. -/
theorem armingStepInvariant :
    StepInvariant (fun _ => ArmingOk) (fun _ => ArmingOk) PumpEvent.KeepsArming where
  unbacked _ _ _ _ _ := armingOk_fresh (by constructor <;> simp [clientSlot]) rfl rfl rfl rfl
  assigned hass h := h.assigned hass
  announces hid hann hkeeps h := h.announces hid hann hkeeps
  commandChange hkeeps h := h.commandChange hkeeps
  moved hstep hout h := h.bufferStep hstep fun _ hstop hnothing => by
    have hid := h.announced hstop
    rw [NothingToWrite, hout.resolve_left (by omega), hstep.outState]
    exact hnothing
  delivered hstep _ hkeeps h := h.delivered hstep hkeeps

/-! ### Runs -/

variable {bufSize : ℕ+} {accepting : Bool} {c : Controller}

theorem Visit.arming (h : Visit bufSize accepting c) (hkeeps : ∀ e ∈ c.trace, e.KeepsArming) :
    Objects (fun _ => ArmingOk) (fun _ => True) c.manager := by
  refine h.objects armingInvariant armingStepInvariant (fun env s hs => ?_) hkeeps
  obtain rfl := List.mem_singleton.mp hs
  exact armingOk_fresh (by constructor <;> simp [tunnelConnection]) rfl rfl rfl rfl

/-- A connection that is polled and whose socket is not closed then keeps its socket. -/
theorem staysOpen_of_enterSlot (h : enterSlot s = some s') (hopen : s'.conn.state.closed = false) :
    StaysOpen s' := by
  unfold enterSlot at h
  dsimp only at h
  split_ifs at h
  obtain rfl := Option.some.inj h
  rw [conn_armOutput] at hopen
  rw [StaysOpen, conn_armOutput]
  refine ⟨hopen, ?_⟩
  rcases closeSocket_cases s with ⟨hclosed, h'⟩ | ⟨-, -, h'⟩ | ⟨-, hclose, h'⟩ <;>
    rw [h'] at hopen ⊢
  · exact absurd (hopen.symm.trans hclosed) Bool.false_ne_true
  · exact absurd hopen Bool.noConfusion
  · simp only [shouldCloseSocket, Slot.shutDirections, isAlive_closeDirection_eq]
    exact hclose

/-- **What is requested for one connection would be done.** -/
theorem ArmingOk.polledForUse (h : ArmingOk s) (hroom : InputRoom s)
    (hopen : s.conn.state.closed = false → StaysOpen s) : SlotPolledForUse s := by
  intro hfd
  have hnot : s.conn.state.closed = false :=
    Bool.eq_false_iff.mpr fun hclosed => absurd (h.parked hclosed) (Int.not_lt.mpr hfd)
  refine ⟨fun hpoll => ?_, fun hpoll => ?_⟩
  · obtain ⟨halive, hrunning⟩ := h.input (hopen hnot) hpoll
    exact ⟨hnot, halive, hrunning.resolve_right (Int.not_lt.mpr hfd), hroom hpoll⟩
  · have hwrite := h.output (hopen hnot) hpoll
    have hrunning : s.conn.state.stopped = false :=
      Bool.eq_false_iff.mpr fun hstop => hwrite (h.quiet (hopen hnot) hstop)
    rw [NothingToWrite, not_or, Bool.not_eq_false] at hwrite
    exact ⟨hnot, hwrite.2, hrunning, beq_eq_false_iff_ne.mpr hwrite.1⟩

/-- **Polling for what would be done.** In every run whose changes end nothing that `poll` is asked
for, all that the next call of `poll` asks for would be done: a connection that is polled for input
would be read, and one that is polled for output would be written. -/
theorem polledForUse_of_guarded (h : Reach bufSize accepting c)
    (hkeeps : ∀ e ∈ c.trace, e.KeepsArming) : PolledForUse c := by
  have hobjects := ((Visit.reach h).arming hkeeps).beforePoll armingInvariant
  intro s' hs'
  have hok := hobjects.present s' hs'
  rw [slots_beforePoll, List.mem_filterMap] at hs'
  obtain ⟨s, hs, henter⟩ := hs'
  exact hok.polledForUse ((enterSlot_slotRun henter).keep SlotOp.inputRoom (h.inputsRoom s hs))
    (staysOpen_of_enterSlot henter)

/-- The peer ends the output of a connection after the service has read all of it. -/
theorem polledForUse_of_guarded_fastReader : ∃ c ∈ fastReader,
    c.manager.log.any SysCall.endsOutput = true ∧ PolledForUse c := by
  have hrun : fastReader.map (fun c => (c.manager.log.any SysCall.endsOutput,
      decide (∀ e ∈ c.trace, e.KeepsArming))) = some (true, true) := by decide +kernel
  obtain ⟨c, hc, hrun⟩ := Option.map_eq_some_iff.mp hrun
  simp only [Prod.mk.injEq, decide_eq_true_eq] at hrun
  exact ⟨c, hc, hrun.1, polledForUse_of_guarded (reach_updates (.start sampleStart) hc) hrun.2⟩

/-- A client is announced. -/
def announcedClient : Option Controller :=
  updates [⟨clientComes 7, samplePump⟩] (startController sampleStart sampleBufSize true)

/-- The peer closes the input of a connection to the service. -/
def inputClosed : Option Controller :=
  updates [⟨tunnelReads [0x7E, 0, 1, 1, 0x7E], samplePump⟩,
      ⟨tunnelReads [0x7E, 0, 4, 1, 0x7E], samplePump⟩]
    (startController sampleStart sampleBufSize false)

/-- The peer closes the output of a connection, which holds two bytes that the service has not
read. -/
def outputClosed : Option Controller :=
  updates [⟨tunnelReads [0x7E, 0, 1, 1, 0x7E], samplePump⟩,
      ⟨tunnelReads [0x7E, 1, 10, 20, 0x7E], samplePump⟩,
      ⟨tunnelReads [0x7E, 0, 3, 1, 0x7E], samplePump⟩]
    (startController sampleStart sampleBufSize false)

/-- The client is polled for input while it is stopped; the directions that the peer has closed are
still polled. -/
theorem not_polledForUse :
    (∃ c ∈ announcedClient, Reach 10240 true c ∧ ¬PolledForUse c) ∧
      (∃ c ∈ inputClosed, Reach 10240 false c ∧ ¬PolledForUse c) ∧
        ∃ c ∈ outputClosed, Reach 10240 false c ∧ ¬PolledForUse c := by
  have hclient : announcedClient.map (fun c => decide (PolledForUse c)) = some false := by
    decide +kernel
  have hinput : inputClosed.map (fun c => decide (PolledForUse c)) = some false := by
    decide +kernel
  have houtput : outputClosed.map (fun c => decide (PolledForUse c)) = some false := by
    decide +kernel
  obtain ⟨c₁, hc₁, hnot₁⟩ := Option.map_eq_some_iff.mp hclient
  obtain ⟨c₂, hc₂, hnot₂⟩ := Option.map_eq_some_iff.mp hinput
  obtain ⟨c₃, hc₃, hnot₃⟩ := Option.map_eq_some_iff.mp houtput
  exact ⟨⟨c₁, hc₁, reach_updates (.start sampleStart) hc₁, of_decide_eq_false hnot₁⟩,
    ⟨c₂, hc₂, reach_updates (.start sampleStart) hc₂, of_decide_eq_false hnot₂⟩,
    ⟨c₃, hc₃, reach_updates (.start sampleStart) hc₃, of_decide_eq_false hnot₃⟩⟩

end OsTasks.PortForwarding
