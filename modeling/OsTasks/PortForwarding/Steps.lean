import OsTasks.PortForwarding.PollSlots

/-!
# The steps of an update

An update of an endpoint is a sequence of steps of six kinds: polling, sorting, one turn of
`handle_state_changes`, delivering payload from the tunnel, handling a command, and steps that move
bytes between buffers without changing anything else. `Step` states what each kind can do and what
is known when it happens, so that an invariant of a run is proved by looking at the six kinds once.

## Main definitions

* `ConnOk`: what the status bits of a connection say about each other and about its output.
* `BufferStep`, `Quiet`: steps that move bytes only.
* `Announces`: what `handle_state_changes` queues for a connection.
* `Step`, `StepRun`: the steps of an endpoint.

## Main results

* `ConnOk.slotOp`, `ConnOk.bufferStep`, `ConnOk.announces`, `ConnOk.commandChange`: the status bits
  stay coherent.
-/

namespace OsTasks.PortForwarding

/-! ### Status bits -/

/-- What the status bits of a connection say about each other. `CS_EOF` is never set in `state`; a
closed socket has both directions closed; a direction is closed only together with the socket or
after it has ended; a socket is closed only for deletion or after both directions have ended; and
an output that has failed still holds the bytes it failed to write. -/
structure ConnOk (c : Connection) : Prop where
  eof : c.state.eof = false
  inClosed : c.state.closed = true → c.inState.closed = true
  outClosed : c.state.closed = true → c.outState.closed = true
  inEnded : c.inState.closed = true → c.state.closed = true ∨ shouldClose c.inState = true
  outEnded : c.outState.closed = true → c.state.closed = true ∨ shouldClose c.outState = true
  ended : c.state.closed = true →
    c.state.delete = true ∨ shouldClose c.inState = true ∧ shouldClose c.outState = true
  unsent : c.outState.eof = true → c.outBuf.length ≠ 0

theorem getRwErrorCause_of_pos {res : ℤ} (h : 0 < res) (err : Errno) :
    getRwErrorCause res err = .none := by
  unfold getRwErrorCause
  rw [if_neg (by omega), if_neg (by omega)]

/-- A write that ends its direction takes no byte. -/
theorem length_bufWrite_of_failed {r : WriteResult} {buf : RoundBuffer} {err : Errno}
    (h : getRwErrorCause (bufWrite r buf).1 err ≠ .none) :
    (bufWrite r buf).2.2.length = buf.length := by
  have hres : ¬ 0 < (bufWrite r buf).1 := fun hpos => h (getRwErrorCause_of_pos hpos err)
  unfold bufWrite at hres ⊢
  dsimp only at hres ⊢
  split_ifs at hres ⊢
  · rfl
  · cases r with
    | error e => rfl
    | taken n =>
      dsimp only at hres ⊢
      rw [length_bufAdvanceReadPtr]
      omega

theorem eof_markEof (cause : RwCause) (state : ConnState) :
    (markEof cause state).eof = true ↔ state.eof = true ∨ cause ≠ .none := by
  cases cause <;> simp [markEof]

theorem closed_closeDirection (state : ConnState) :
    (closeDirection state).closed = true ↔ state.closed = true ∨ shouldClose state = true := by
  unfold closeDirection isClosed
  cases shouldClose state <;> cases h : state.closed <;> simp [h]

theorem shouldClose_closeDirection (state : ConnState) :
    shouldClose (closeDirection state) = shouldClose state := by
  simp [shouldClose]

theorem not_isAlive_iff (state : ConnState) :
    isAlive state = false ↔ shouldClose state = true ∨ state.closed = true := by
  cases state with
  | mk new eof closed delete stopped =>
    cases eof <;> cases closed <;> cases delete <;> simp [isAlive, shouldClose]

/-- When the socket of a connection has to be closed, it is marked for deletion or both directions
have ended. -/
theorem ConnOk.ended_of_shouldCloseSocket {c : Connection} (h : ConnOk c)
    (hopen : c.state.closed = false) (hclose : shouldCloseSocket c = true) :
    c.state.delete = true ∨ shouldClose c.inState = true ∧ shouldClose c.outState = true := by
  rw [shouldCloseSocket, Bool.or_eq_true, shouldClose_iff, h.eof, Bool.and_eq_true,
    Bool.not_eq_true', Bool.not_eq_true', not_isAlive_iff, not_isAlive_iff] at hclose
  have hin := h.inEnded
  have hout := h.outEnded
  simp only [hopen, Bool.false_eq_true, false_or] at hin hout hclose
  exact hclose.imp id fun hboth => ⟨hboth.1.elim id hin, hboth.2.elim id hout⟩

theorem ConnOk.slotOp {s s' : Slot} (hop : SlotOp s s') (h : ConnOk s.conn) : ConnOk s'.conn := by
  cases hop with
  | close =>
    rcases closeSocket_cases s with ⟨-, h'⟩ | ⟨hopen, hclose, h'⟩ | ⟨hopen, -, h'⟩ <;> rw [h']
    · exact h
    · exact
        { eof := h.eof
          inClosed := fun _ => rfl
          outClosed := fun _ => rfl
          inEnded := fun _ => .inl rfl
          outEnded := fun _ => .inl rfl
          ended := fun _ => h.ended_of_shouldCloseSocket hopen hclose
          unsent := h.unsent }
    · have hnot : ¬ s.shutDirections.conn.state.closed = true := by
        rw [show s.shutDirections.conn.state = s.conn.state from rfl, hopen]
        exact Bool.false_ne_true
      exact
        { eof := h.eof
          inClosed := fun hc => absurd hc hnot
          outClosed := fun hc => absurd hc hnot
          inEnded := fun hc => by
            rw [Slot.shutDirections, closed_closeDirection] at hc
            rw [Slot.shutDirections, shouldClose_closeDirection]
            exact hc.elim h.inEnded .inr
          outEnded := fun hc => by
            rw [Slot.shutDirections, closed_closeDirection] at hc
            rw [Slot.shutDirections, shouldClose_closeDirection]
            exact hc.elim h.outEnded .inr
          ended := fun hc => absurd hc hnot
          unsent := fun hc => h.unsent (by rwa [Slot.shutDirections, eof_closeDirection] at hc) }
  | arm =>
    unfold armOutput
    split_ifs <;> exact ⟨h.1, h.2, h.3, h.4, h.5, h.6, h.7⟩
  | poll => exact ⟨h.1, h.2, h.3, h.4, h.5, h.6, h.7⟩
  | receive r _ halive =>
    have hopen : s.conn.state.closed = false := ((isAlive_iff _).mp halive).2.1
    rcases receive_cases r s with h' | ⟨_, _, h', hin, -, rfl | ⟨cause, rfl⟩⟩ <;> rw [h']
    · exact h
    · exact ⟨h.1, h.2, h.3, h.4, h.5, h.6, h.7⟩
    · have hinopen : s.conn.inState.closed = false := ((isAlive_iff _).mp hin).2.1
      exact
        { eof := h.eof
          inClosed := fun hc => by simp [hopen] at hc
          outClosed := h.outClosed
          inEnded := fun hc => by simp [hinopen] at hc
          outEnded := h.outEnded
          ended := fun hc => by simp [hopen] at hc
          unsent := h.unsent }
  | transmit r _ halive =>
    have hopen : s.conn.state.closed = false := ((isAlive_iff _).mp halive).2.1
    rcases transmit_cases r s with h' | ⟨_, _, h', hout, -, rfl | ⟨hne, rfl⟩⟩ <;> rw [h']
    · exact h
    · exact ⟨h.1, h.2, h.3, h.4, h.5, h.6, h.7⟩
    · obtain ⟨houteof, houtopen, -⟩ := (isAlive_iff _).mp hout
      exact
        { eof := h.eof
          inClosed := h.inClosed
          outClosed := fun hc => by simp [hopen] at hc
          inEnded := h.inEnded
          outEnded := fun hc => by simp [houtopen] at hc
          ended := fun hc => by simp [hopen] at hc
          unsent := fun heof => by
            rw [eof_markEof, houteof] at heof
            rw [length_bufWrite_of_failed (heof.resolve_left Bool.false_ne_true)]
            exact hne }

/-! ### Steps that move bytes only -/

/-- A slot after bytes have been taken from its input or added to its output. -/
structure BufferStep (s s' : Slot) : Prop where
  ref : s'.ref = s.ref
  inc : s'.inc = s.inc
  own : s'.own = s.own
  pfd : s'.pfd = s.pfd
  id : s'.conn.id = s.conn.id
  state : s'.conn.state = s.conn.state
  inState : s'.conn.inState = s.conn.inState
  outState : s'.conn.outState = s.conn.outState
  outBuf : s.conn.outBuf.length ≤ s'.conn.outBuf.length

theorem BufferStep.refl (s : Slot) : BufferStep s s :=
  ⟨rfl, rfl, rfl, rfl, rfl, rfl, rfl, rfl, Nat.le_refl _⟩

theorem BufferStep.trans {s t u : Slot} (h : BufferStep s t) (h' : BufferStep t u) :
    BufferStep s u where
  ref := h'.ref.trans h.ref
  inc := h'.inc.trans h.inc
  own := h'.own.trans h.own
  pfd := h'.pfd.trans h.pfd
  id := h'.id.trans h.id
  state := h'.state.trans h.state
  inState := h'.inState.trans h.inState
  outState := h'.outState.trans h.outState
  outBuf := h.outBuf.trans h'.outBuf

/-- An output that has got nothing keeps its length. -/
theorem BufferStep.length_outBuf {s s' : Slot} (h : BufferStep s s')
    (hnone : s'.conn.outBuf.contents.drop s.conn.outBuf.length = []) :
    s'.conn.outBuf.length = s.conn.outBuf.length := by
  rw [List.drop_eq_nil_iff, RoundBuffer.length_contents] at hnone
  exact Nat.le_antisymm hnone h.outBuf

theorem ConnOk.bufferStep {s s' : Slot} (hstep : BufferStep s s') (h : ConnOk s.conn) :
    ConnOk s'.conn := by
  obtain ⟨-, -, -, -, -, hstate, hin, hout, hlen⟩ := hstep
  constructor <;> simp only [hstate, hin, hout]
  · exact h.eof
  · exact h.inClosed
  · exact h.outClosed
  · exact h.inEnded
  · exact h.outEnded
  · exact h.ended
  · exact fun heof hzero => h.unsent heof (by omega)

/-- The slots after bytes have been moved; only the connection with a certain id may have got
output. -/
def SlotsMoved (id : ℤ) (slots slots' : List Slot) : Prop :=
  ∃ g : Slot → Slot, slots' = slots.map g ∧ (∀ s ∈ slots, BufferStep s (g s)) ∧
    ∀ s ∈ slots, s.conn.id = id ∨ (g s).conn.outBuf = s.conn.outBuf

theorem SlotsMoved.refl (id : ℤ) (slots : List Slot) : SlotsMoved id slots slots :=
  ⟨fun s => s, (List.map_id _).symm, fun s _ => .refl s, fun _ _ => .inr rfl⟩

theorem SlotsMoved.trans {id : ℤ} {l₁ l₂ l₃ : List Slot} (h : SlotsMoved id l₁ l₂)
    (h' : SlotsMoved id l₂ l₃) : SlotsMoved id l₁ l₃ := by
  obtain ⟨g, rfl, hg, hout⟩ := h
  obtain ⟨g', rfl, hg', hout'⟩ := h'
  refine ⟨g' ∘ g, List.map_map, fun s hs => (hg s hs).trans (hg' _ (List.mem_map_of_mem hs)),
    fun s hs => ?_⟩
  rcases hout s hs with hid | hkeep
  · exact .inl hid
  · exact (hout' _ (List.mem_map_of_mem hs)).imp (fun hid => (hg s hs).id ▸ hid)
      fun hkeep' => hkeep'.trans hkeep

/-- A change of the buffers of one object moves bytes, if it takes nothing from the output. -/
theorem slotsMoved_modifyConn {id : ℤ} {slots : List Slot} {ref : ℕ} {f : Connection → Connection}
    (hf : ∀ s ∈ slots, s.ref = ref → BufferStep s { s with conn := f s.conn } ∧
      (s.conn.id = id ∨ (f s.conn).outBuf = s.conn.outBuf)) :
    SlotsMoved id slots (modifyConn slots ref f) := by
  have hboth : ∀ s ∈ slots, BufferStep s (modifySlot ref f s) ∧
      (s.conn.id = id ∨ (modifySlot ref f s).conn.outBuf = s.conn.outBuf) := by
    intro s hs
    by_cases h : s.ref = ref
    · rw [← h, modifySlot_self]
      exact hf s hs h
    · rw [modifySlot_of_ne h]
      exact ⟨.refl s, .inr rfl⟩
  exact ⟨modifySlot ref f, modifyConn_eq_map slots ref f, fun s hs => (hboth s hs).1,
    fun s hs => (hboth s hs).2⟩

theorem SlotsMoved.map_ref {id : ℤ} {l l' : List Slot} (h : SlotsMoved id l l') :
    l'.map Slot.ref = l.map Slot.ref := by
  obtain ⟨g, rfl, hg, -⟩ := h
  rw [List.map_map]
  exact List.map_congr_left fun s hs => (hg s hs).ref

/-! ### Announcements -/

/-- A command that `handle_state_changes` can queue for a connection, and the connection after
that. -/
inductive Announces (c : Connection) : UInt8 → Connection → Prop
  | new (hnew : c.state.new = true) :
      Announces c cmdNew { c with state := { c.state with new := false, stopped := true } }
  | close (hnew : c.state.new = false) (hclose : shouldCloseConnection c = true) :
      Announces c cmdClose { c with state := { c.state with delete := true } }
  | closeIn (hnew : c.state.new = false) (hdel : c.inState.delete = false)
      (hclose : shouldCloseIn c = true) :
      Announces c cmdCloseSrcToDst { c with inState := { c.inState with delete := true } }
  | closeOut (hnew : c.state.new = false) (hdel : c.outState.delete = false)
      (hclose : shouldCloseOut c = true) :
      Announces c cmdCloseDstToSrc { c with outState := { c.outState with delete := true } }

theorem ConnOk.announces {c conn : Connection} {cmd : UInt8} (h : Announces c cmd conn)
    (hc : ConnOk c) : ConnOk conn := by
  cases h with
  | new => exact ⟨hc.1, hc.2, hc.3, hc.4, hc.5, hc.6, hc.7⟩
  | close => exact ⟨hc.1, hc.2, hc.3, hc.4, hc.5, fun _ => .inl rfl, hc.7⟩
  | closeIn =>
    exact
      { hc with
        inEnded := fun _ => .inr (by simp)
        ended := fun hclosed => (hc.ended hclosed).imp id fun h => ⟨by simp, h.2⟩ }
  | closeOut =>
    exact
      { hc with
        outEnded := fun _ => .inr (by simp)
        ended := fun hclosed => (hc.ended hclosed).imp id fun h => ⟨h.1, by simp⟩ }

theorem Announces.id {c conn : Connection} {cmd : UInt8} (h : Announces c cmd conn) :
    conn.id = c.id := by
  cases h <;> rfl

/-- The endpoint after `cmd` has been queued for the connection of `s`, which is `conn` then. -/
def Controller.announce (c : Controller) (s : Slot) (cmd : UInt8) (conn : Connection)
    (q : CmdQueue) : Controller :=
  { ((c.modify s.ref fun _ => conn).setQueue q).note (.queued s cmd) with
    freeIds := if cmd = cmdClose ∧ c.accepting then idStackPush c.freeIds s.conn.id else c.freeIds }

/-- The endpoint after `sort_connections`. -/
def Controller.sort (c : Controller) : Controller :=
  let r := sortConnections c.freeIds c.slots fun _ => none
  { c.setSlots r.2.1 with freeIds := r.1 }

/-- The endpoint after bytes of a frame for `id` have been delivered to `target`. -/
def Controller.deliver (c : Controller) (env : PumpEnv) (id : ℕ) (tunnel target : Slot) :
    Controller :=
  let r := decodeTo env id tunnel target c
  r.2.setSendingTo (if r.1 then -1 else id)

/-- Delivering, as `nextFrame` does it. -/
theorem deliver_of_idle {c : Controller} (hsend : c.pump.sendingTo = -1) (env : PumpEnv) (id : ℕ)
    (tunnel target : Slot) :
    (if (decodeTo env id tunnel target c).1 then (decodeTo env id tunnel target c).2
      else (decodeTo env id tunnel target c).2.setSendingTo id) =
        c.deliver env id tunnel target := by
  have hidle : (decodeTo env id tunnel target c).2.setSendingTo (-1) =
      (decodeTo env id tunnel target c).2 := by
    rw [← hsend]
    rfl
  unfold Controller.deliver
  dsimp only
  cases (decodeTo env id tunnel target c).1 with
  | false => rfl
  | true => exact hidle.symm

/-- Delivering the rest of a frame, as `recv_from_tunnel` does it. -/
theorem deliver_of_busy {c : Controller} {id : ℕ} (hsend : c.pump.sendingTo = id) (env : PumpEnv)
    (tunnel target : Slot) :
    (if (decodeTo env id tunnel target c).1 then
        (decodeTo env id tunnel target c).2.setSendingTo (-1)
      else (decodeTo env id tunnel target c).2) = c.deliver env id tunnel target := by
  have hbusy : (decodeTo env id tunnel target c).2.setSendingTo id =
      (decodeTo env id tunnel target c).2 := by
    rw [← hsend]
    rfl
  unfold Controller.deliver
  dsimp only
  cases (decodeTo env id tunnel target c).1 with
  | false => exact hbusy.symm
  | true => rfl

/-! ### Commands of the peer -/

@[simp] theorem id_commandChange (cmd : UInt8) (c : Connection) :
    (commandChange cmd c).id = c.id := by
  unfold commandChange
  split_ifs <;> rfl

@[simp] theorem inBuf_commandChange (cmd : UInt8) (c : Connection) :
    (commandChange cmd c).inBuf = c.inBuf := by
  unfold commandChange
  split_ifs <;> rfl

@[simp] theorem outBuf_commandChange (cmd : UInt8) (c : Connection) :
    (commandChange cmd c).outBuf = c.outBuf := by
  unfold commandChange
  split_ifs <;> rfl

theorem delete_commandChange {cmd : UInt8} (hcmd : cmd ≠ cmdClose) (c : Connection) :
    (commandChange cmd c).state.delete = c.state.delete := by
  unfold commandChange
  rw [if_neg hcmd]
  split_ifs <;> rfl

theorem ConnOk.commandChange {c : Connection} (cmd : UInt8) (h : ConnOk c) :
    ConnOk (commandChange cmd c) := by
  unfold PortForwarding.commandChange
  split_ifs
  · exact ⟨h.1, h.2, h.3, h.4, h.5, fun _ => .inl rfl, h.7⟩
  · exact
      { h with
        outEnded := fun _ => .inr (by simp)
        ended := fun hclosed => (h.ended hclosed).imp id fun h => ⟨h.1, by simp⟩ }
  · exact
      { h with
        inEnded := fun _ => .inr (by simp)
        ended := fun hclosed => (h.ended hclosed).imp id fun h => ⟨by simp, h.2⟩ }
  · exact ⟨h.1, h.2, h.3, h.4, h.5, h.6, h.7⟩
  · exact h

/-! ### Steps -/

/-- The events of a step that moves bytes only. -/
inductive QuietEvent (slots : List Slot) : PumpEvent → Prop
  | received (cmd arg : UInt8) : QuietEvent slots (.received cmd arg)
  | sent (command : Command) : QuietEvent slots (.sent command)
  | dropped (command : Command) : QuietEvent slots (.dropped command)
  | encoded {s : Slot} (bytes : List UInt8) (hs : s ∈ slots)
      (hstate : isAlive s.conn.state = true) (hin : isAlive s.conn.inState = true) :
      QuietEvent slots (.encoded s bytes)

/-- A step that moves bytes between buffers, and the queue, only. Output goes to the tunnel. -/
structure Quiet (c c' : Controller) : Prop where
  moved : SlotsMoved 0 c.slots c'.slots
  nextRef : c'.manager.nextRef = c.manager.nextRef
  log : c'.manager.log = c.manager.log
  freeIds : c'.freeIds = c.freeIds
  accepting : c'.accepting = c.accepting
  sendingTo : c'.pump.sendingTo = c.pump.sendingTo
  trace : c'.trace = c.trace ∨ ∃ e, QuietEvent c.slots e ∧ c'.trace = e :: c.trace

theorem Quiet.of_modify {c : Controller} {ref : ℕ} {f : Connection → Connection}
    (h : SlotsMoved 0 c.slots (c.modify ref f).slots) : Quiet c (c.modify ref f) :=
  ⟨h, rfl, rfl, rfl, rfl, rfl, .inl rfl⟩

/-- The steps of an update, with what is known when they happen. -/
inductive Step : Controller → Controller → Prop
  | poll {c : Controller} {env : PollEnv} {m : Manager} {cause : CloseCause}
      (h : cmPoll env c.manager = .ok (m, cause)) : Step c { c with manager := m }
  | sort {c : Controller} (hdel : ∀ s ∈ c.slots, s.conn.state.delete = false) : Step c c.sort
  | announce {c : Controller} {s : Slot} {cmd : UInt8} {conn : Connection} {q : CmdQueue}
      (hs : s ∈ c.slots) (hid : 1 ≤ s.conn.id) (hdel : s.conn.state.delete = false)
      (h : Announces s.conn cmd conn)
      (hq : cmdqEnqueue c.pump.cmdQueue ⟨cmd, toByte s.conn.id, s.inc⟩ = some q) :
      Step c (c.announce s cmd conn q)
  | deliver {c : Controller} (env : PumpEnv) {id : ℕ} (tunnel : Slot) {target : Slot}
      (hid : 1 ≤ id) (hlast : lastWithId id c.slots = some target)
      (hdel : target.conn.state.delete = false)
      (hsend : c.pump.sendingTo = -1 ∨ c.pump.sendingTo = id) :
      Step c (c.deliver env id tunnel target)
  | handle {c : Controller} (env : ConnectEnv) (cmd arg : UInt8) (hsend : c.pump.sendingTo = -1) :
      Step c (onCommand env c ⟨cmd, arg, 0⟩)
  | quiet {c c' : Controller} (h : Quiet c c') : Step c c'

/-- A sequence of steps. -/
abbrev StepRun : Controller → Controller → Prop := Relation.ReflTransGen Step

end OsTasks.PortForwarding
