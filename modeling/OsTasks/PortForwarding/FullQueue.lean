import OsTasks.PortForwarding.Announcing
import OsTasks.PortForwarding.Blocking
import OsTasks.PortForwarding.Draining
import OsTasks.PortForwarding.TunnelEntry

/-!
# A full command queue

`pump_transfer` is the only consumer of the command queue, and `update` does not call it when
`handle_state_changes` has found the queue full. An update sends the oldest command exactly if the
commands that are due fit into the queue behind those that wait, the tunnel's input has nothing that
ends the process, and no frame is stored over others.

## Main definitions

* `acceptsInput`: whether `recv_from_tunnel` accepts what is at the front of the tunnel's input.
* `SendsOldest`: an update sends the oldest command, and leaves room in the queue.

## Main results

* `recvFromTunnel_ok_iff`: when `recv_from_tunnel` returns.
* `sendsOldest_iff`: when an update sends the oldest command.
* `not_sendsOldest_fullQueue`: a full queue that stays full.
-/

namespace OsTasks.PortForwarding

variable {handler : Controller → Command → Controller} {env : PumpEnv} {conns : Conns}
  {c c₁ : Controller} {tunnel : Slot}

/-! ### The tunnel's input -/

/-- The outputs of the connections that the array points to. -/
def outputsAt (slots : List Slot) (conns : Conns) (i : ℕ) : Option RoundBuffer :=
  (lookup slots conns i).map fun s => s.conn.outBuf

/-- Whether `recv_from_tunnel` accepts the frame at the front: a frame starts with `END`, and is a
command or for a connection that exists. Three bytes or less are not looked at. -/
def acceptsFrame (outputs : ℕ → Option RoundBuffer) (buf : RoundBuffer) : Bool :=
  let start := (bufPeek buf 3).getD []
  bufDataLength buf ≤ 3 ||
    start.getD 0 0 == endByte && (start.getD 1 0 == 0 || (outputs (start.getD 1 0).toNat).isSome)

/-- Whether `recv_from_tunnel` accepts the tunnel's input: a frame in progress is for a connection
that exists, and the frame behind it is accepted. -/
def acceptsInput (wild : ℕ → UInt8) (outputs : ℕ → Option RoundBuffer) (sendingTo : ℤ)
    (buf : RoundBuffer) : Bool :=
  bufEmpty buf ||
    if sendingTo = -1 then acceptsFrame outputs buf
    else
      match outputs sendingTo.toNat with
      | none => false
      | some out =>
        let r := decode wild buf out
        !r.1 || acceptsFrame outputs r.2.1

theorem nextFrame_ok_iff (handler : Controller → Command → Controller) (env : PumpEnv)
    (ht : lookup c.slots conns 0 = some tunnel) :
    (∃ c', nextFrame handler env conns c = .ok c') ↔
      acceptsFrame (outputsAt c.slots conns) tunnel.conn.inBuf = true := by
  unfold nextFrame acceptsFrame outputsAt
  rw [ht]
  dsimp only
  by_cases hfew : 3 < bufDataLength tunnel.conn.inBuf
  · rw [if_pos hfew, decide_eq_false (Nat.not_le.mpr hfew), Bool.false_or]
    by_cases hstart : ((bufPeek tunnel.conn.inBuf 3).getD []).getD 0 0 = endByte
    · rw [if_neg (not_not_intro hstart), hstart, BEq.rfl, Bool.true_and]
      by_cases hid : ((bufPeek tunnel.conn.inBuf 3).getD []).getD 1 0 = 0
      · rw [if_pos hid, hid]
        refine iff_of_true ?_ rfl
        split_ifs <;> exact ⟨_, rfl⟩
      · rw [if_neg hid, beq_false_of_ne hid, Bool.false_or]
        cases lookup c.slots conns (((bufPeek tunnel.conn.inBuf 3).getD []).getD 1 0).toNat with
        | none => exact iff_of_false (by rintro ⟨_, ⟨⟩⟩) Bool.false_ne_true
        | some target => exact iff_of_true ⟨_, rfl⟩ rfl
    · rw [if_pos hstart, beq_false_of_ne hstart]
      exact iff_of_false (by rintro ⟨_, ⟨⟩⟩) Bool.false_ne_true
  · rw [if_neg hfew, decide_eq_true (Nat.not_lt.mp hfew)]
    exact iff_of_true ⟨_, rfl⟩ rfl

theorem acceptsFrame_congr {outputs outputs' : ℕ → Option RoundBuffer}
    (h : ∀ i, (outputs i).isSome = (outputs' i).isSome) (buf : RoundBuffer) :
    acceptsFrame outputs buf = acceptsFrame outputs' buf := by
  unfold acceptsFrame
  dsimp only
  rw [h]

/-- Delivering bytes removes no connection. -/
theorem outputsAt_decodeTo (env : PumpEnv) (id : ℕ) (tunnel target : Slot) (i : ℕ) :
    (outputsAt (decodeTo env id tunnel target c).2.slots conns i).isSome =
      (outputsAt c.slots conns i).isSome := by
  rw [outputsAt, outputsAt, Option.isSome_map, Option.isSome_map]
  rw [slots_decodeTo, lookup_modifyConn, lookup_modifyConn, Option.isSome_map, Option.isSome_map]

/-- **When `recv_from_tunnel` returns.** -/
theorem recvFromTunnel_ok_iff (handler : Controller → Command → Controller)
    (h : PumpReady conns c) (ht : lookup c.slots conns 0 = some tunnel) :
    (∃ c', recvFromTunnel handler env conns c = .ok c') ↔
      acceptsInput env.wild (outputsAt c.slots conns) c.pump.sendingTo
        tunnel.conn.inBuf = true := by
  unfold recvFromTunnel acceptsInput
  rw [ht]
  dsimp only
  by_cases hempty : bufEmpty tunnel.conn.inBuf = true
  · rw [if_pos hempty, hempty]
    exact iff_of_true ⟨_, rfl⟩ rfl
  rw [if_neg hempty, Bool.eq_false_iff.mpr hempty, Bool.false_or]
  by_cases hidle : c.pump.sendingTo = -1
  · rw [if_neg (not_not_intro hidle), if_pos hidle]
    exact nextFrame_ok_iff handler env ht
  rw [if_pos hidle, if_neg hidle, outputsAt]
  cases hs : lookup c.slots conns c.pump.sendingTo.toNat with
  | none => exact iff_of_false (by rintro ⟨_, ⟨⟩⟩) Bool.false_ne_true
  | some target =>
    have hk : c.pump.sendingTo.toNat ≠ 0 := by
      have := h.sendingTo
      omega
    let c' := (decodeTo env c.pump.sendingTo.toNat tunnel target c).2.setSendingTo (-1)
    have ht' : lookup c'.slots conns 0 = _ :=
      tunnel_decodeTo env c.pump.sendingTo.toNat tunnel h ht hs hk rfl
    have hframe := nextFrame_ok_iff handler env ht'
    have hsame : ∀ i, (outputsAt c'.slots conns i).isSome = (outputsAt c.slots conns i).isSome :=
      outputsAt_decodeTo env c.pump.sendingTo.toNat tunnel target
    rw [acceptsFrame_congr hsame] at hframe
    dsimp only [Option.map_some]
    change (∃ c', (if (decode env.wild tunnel.conn.inBuf target.conn.outBuf).1 = true then
      nextFrame handler env conns
        ((decodeTo env c.pump.sendingTo.toNat tunnel target c).2.setSendingTo (-1))
      else Except.ok _) = Except.ok c') ↔ _
    by_cases hdone : (decode env.wild tunnel.conn.inBuf target.conn.outBuf).1 = true
    · rw [if_pos hdone, hdone, Bool.not_true, Bool.false_or]
      exact hframe
    · rw [if_neg hdone, Bool.eq_false_iff.mpr hdone]
      exact iff_of_true ⟨_, rfl⟩ rfl

/-! ### The oldest command -/

/-- Sending does not change the size of the queue. -/
theorem cap_sendToTunnel (hnd : (c.slots.map Slot.ref).Nodup) (hentries : EntriesAt conns c.slots) :
    (sendToTunnel conns c).pump.cmdQueue.cap = c.pump.cmdQueue.cap := by
  have hdequeue (q : CmdQueue) : (cmdqDequeue q).2.cap = q.cap := cap_cmdqDequeue q
  refine sendToTunnel_induction (P := fun c' => c'.pump.cmdQueue.cap = c.pump.cmdQueue.cap)
    (fun _ h => (hdequeue _).trans h) (fun _ _ h => (hdequeue _).trans h)
    (fun _ h => (hdequeue _).trans h) (fun _ _ _ _ _ _ h => ?_) (fun _ h => h) hnd hentries rfl
  refine Eq.trans ?_ h
  unfold Controller.encodeTo
  dsimp only
  split <;> rfl

/-- With room for one command the oldest one is sent first. -/
theorem eventsToSend_of_head {command : Command} {room : ℕ} (conns : Conns)
    (hhead : c.pump.cmdQueue.contents.head? = some command) (hroom : 5 ≤ room) :
    ∃ rest, eventsToSend conns room c = command.event :: rest := by
  obtain ⟨queued, hqueued⟩ := List.head?_eq_some_iff.mp hhead
  obtain ⟨n, hn⟩ : ∃ n, room / 5 = n + 1 := ⟨room / 5 - 1, by omega⟩
  unfold eventsToSend
  rw [hqueued, hn, List.take_succ_cons, List.map_cons]
  dsimp only
  split_ifs
  · exact ⟨_, rfl⟩
  · exact ⟨_, rfl⟩

/-! ### One update -/

/-- The endpoint as `handle_state_changes` finds it, after `cm_poll` has left the manager `m`. -/
def Controller.polled (c : Controller) (m : Manager) : Controller :=
  Controller.sort { c with manager := m }

instance : DecidablePred TunnelClosed := fun _ => inferInstanceAs (Decidable (_ ∨ _ ∨ _))

/-- The outputs of the connections that `handle_state_changes` leaves in the array. -/
def keptOutputs (slots : List Slot) (i : ℕ) : Option RoundBuffer :=
  ((lastWithId i slots).filter fun s => !shouldCloseConnection s.conn).map fun s => s.conn.outBuf

/-- Where an update begins to send: the array, the tunnel at the entry of the pump, and the endpoint
after receiving. -/
def sendingFrom (env : Env) (c : Controller) : Option (Conns × Slot × Controller) :=
  match beforeTransfer env.poll c with
  | .ok (c₁, .inr conns) =>
    (lookup c₁.slots conns 0).bind fun tunnel =>
      (recvFromTunnel (onCommand env.pump.connect) env.pump conns c₁).toOption.map fun c₂ =>
        (conns, tunnel, c₂)
  | _ => none

/-- What is to be sent does not come behind unread bytes that run past the end of the array. -/
def SendsInLine (env : Env) (c : Controller) : Prop :=
  ∀ p ∈ sendingFrom env c, p.2.1.conn.outBuf.InLine
    ((eventsToSend p.1 (bufFreeLength p.2.1.conn.outBuf) p.2.2).map TunnelEvent.frame)

instance (env : Env) (c : Controller) : Decidable (SendsInLine env c) :=
  inferInstanceAs (Decidable (∀ p ∈ sendingFrom env c, _))

/-- The update enters the pump, and whatever the free cells of the tunnel's output hold, whole
frames come to its unread bytes, the first one that of the oldest command, and there is room in the
queue afterwards. -/
def SendsOldest (env : Env) (c : Controller) : Prop :=
  ∃ c₁ conns tunnel command, beforeTransfer env.poll c = .ok (c₁, .inr conns) ∧
    lookup c₁.slots conns 0 = some tunnel ∧
    c.pump.cmdQueue.contents.head? = some command ∧
    AlwaysTransfers env.pump conns tunnel c₁ fun c' =>
      (∃ rest, TunnelGets conns tunnel (command.event :: rest) c') ∧
        c'.pump.cmdQueue.length < c'.pump.cmdQueue.cap

variable {m : Manager} {env : Env}

/-- The array that `sort_connections` leaves is in order, and no connection is to be removed. -/
theorem WellFormed.polled (h : WellFormed c) (hpoll : cmPoll env.poll c.manager = .ok (m, .none)) :
    WellFormed (c.polled m) ∧
      ConnsOk (Controller.sorted { c with manager := m }) (c.polled m).slots ∧
      ∀ s ∈ (c.polled m).slots, s.conn.state.delete = false := by
  have hwf : WellFormed { c with manager := m } := h.poll hpoll
  have hdel := delete_sort hwf (delete_of_cmPoll hpoll)
  exact ⟨hwf.sort, hwf.connsOk_sort hdel, hdel⟩

theorem ConnsOk.entered {c : Controller} (h : WellFormed c) (hconns : ConnsOk conns c.slots)
    (hdel : ∀ s ∈ c.slots, s.conn.state.delete = false) (ids : List ℕ) : Entered ids conns c where
  refs := h.nodup
  entry i _ := by
    rw [hconns i]
    cases hlast : lastWithId i c.slots with
    | none => rfl
    | some s => simp [Option.filter, hdel s (mem_of_lastWithId hlast).1]
  live i _ s hs := by simp [shouldDelete, hdel s (mem_of_lastWithId hs).1]

/-- The connections that the pump finds after `handle_state_changes`. -/
theorem lookup_of_kept {slots : List Slot} (hnd : (slots.map Slot.ref).Nodup) {p : Slot → Bool}
    {g : Slot → Slot} (hg : ∀ s, AnnounceKeeps s (g s)) {i : ℕ}
    (hentry : conns i = ((lastWithId i slots).filter p).map Slot.ref) :
    lookup (slots.map g) conns i = ((lastWithId i slots).filter p).map g := by
  cases hkept : (lastWithId i slots).filter p with
  | none =>
    rw [hkept] at hentry
    rw [lookup, hentry]
    rfl
  | some s =>
    have hs := (mem_of_lastWithId (Option.filter_eq_some_iff.mp hkept).1).1
    rw [hkept] at hentry
    rw [lookup, hentry, Option.map_some, Option.bind_some, findSlot_map fun t _ => (hg t).ref,
      (findSlot_eq_some_iff hnd).mpr ⟨hs, rfl⟩]

/-- What `handle_state_changes` leaves to the pump when it has announced everything. -/
structure Handed (c c₁ : Controller) (conns₁ : Conns) (tunnel : Slot) : Prop where
  ready : PumpReady conns₁ c₁
  tunnel : ∃ t, lookup c₁.slots conns₁ 0 = some t ∧ t.conn.inBuf = tunnel.conn.inBuf ∧
    t.conn.outBuf = tunnel.conn.outBuf
  outputs : outputsAt c₁.slots conns₁ = keptOutputs c.slots
  sendingTo : c₁.pump.sendingTo = c.pump.sendingTo

theorem stateLoop_handed {c : Controller} (h : WellFormed c) (hconns : ConnsOk conns c.slots)
    (hdel : ∀ s ∈ c.slots, s.conn.state.delete = false)
    (ht : lookup c.slots conns 0 = some tunnel) (hopen : tunnel.conn.state.closed = false)
    (hok : (stateLoop (List.range' 1 255) conns c).1 = .ok) :
    Handed c (stateLoop (List.range' 1 255) conns c).2.1
      (stateLoop (List.range' 1 255) conns c).2.2 tunnel := by
  have hentered : Entered (List.range' 1 255) conns c := hconns.entered h hdel _
  have hann := (stateLoop_announces List.nodup_range' hentered).announced
  obtain ⟨g, hslots, hg⟩ := foldl_perform_keeps c.accepting c.ledger
    ((pending (List.range' 1 255) c.slots).take c.pump.cmdQueue.room)
  rw [← hann.ledger] at hslots
  have hlast := ((hconns.lookup_iff h.nodup).mp ht).1
  have htkeep : (!shouldCloseConnection tunnel.conn) = true := by
    rw [shouldCloseConnection, hopen, Bool.and_false]
    rfl
  -- every entry is that of a connection that has not been closed
  have hentry : ∀ i, (stateLoop (List.range' 1 255) conns c).2.2 i =
      ((lastWithId i c.slots).filter fun s => !shouldCloseConnection s.conn).map Slot.ref := by
    intro i
    rw [stateLoop_conns List.nodup_range' hentered hok]
    split_ifs with hi
    · rfl
    · rw [(hconns.entered h hdel [i]).entry i List.mem_cons_self]
      cases hi' : lastWithId i c.slots with
      | none => rfl
      | some s =>
        obtain ⟨hs, hid⟩ := mem_of_lastWithId hi'
        have hle := (h.slotOk s hs).id_le
        have hzero : i = 0 := by
          rw [List.mem_range'_1] at hi
          omega
        subst hzero
        obtain rfl := Option.some.inj (hlast.symm.trans hi')
        rw [Option.filter_some, if_pos htkeep]
  have hlookup : ∀ i, lookup (stateLoop (List.range' 1 255) conns c).2.1.slots
      (stateLoop (List.range' 1 255) conns c).2.2 i =
        ((lastWithId i c.slots).filter fun s => !shouldCloseConnection s.conn).map g := fun i => by
    rw [show (stateLoop (List.range' 1 255) conns c).2.1.slots = c.slots.map g from hslots]
    exact lookup_of_kept h.nodup hg (hentry i)
  obtain ⟨hrun, hconns'⟩ := stateLoop_run (List.range' 1 255)
    (fun i hi => (List.mem_range'_1.mp hi).1) h hconns
  refine ⟨(hrun.wellFormed h).pumpReady (hconns' (by rw [hok]; rintro ⟨⟩)), ⟨g tunnel, ?_,
    (hg tunnel).inBuf, (hg tunnel).outBuf⟩, funext fun i => ?_, ?_⟩
  · rw [hlookup, hlast, Option.filter_some, if_pos htkeep]
    rfl
  · rw [outputsAt, hlookup, keptOutputs, Option.map_map]
    exact congrArg (Option.map · _) (funext fun s => (hg s).outBuf)
  · exact hann.sendingTo

/-- The update ends before the pump is entered. -/
theorem update_of_stop {c' : Controller} {cause : CloseCause}
    (h : beforeTransfer env.poll c = .ok (c', .inl cause)) : update env c = .ok (c', cause) := by
  unfold update
  rw [h]
  rfl

/-- `handle_state_changes`, for an open tunnel. -/
theorem changes_of_open {c : Controller} (ht : lookup c.slots conns 0 = some tunnel)
    (hopen : ¬TunnelClosed tunnel) :
    changes conns c =
      if (stateLoop (List.range' 1 255) conns c).1 = .ok then
        .ok ((stateLoop (List.range' 1 255) conns c).2.1,
          .inr (stateLoop (List.range' 1 255) conns c).2.2)
      else .ok ((stateLoop (List.range' 1 255) conns c).2.1,
        .inl (if (stateLoop (List.range' 1 255) conns c).1 = .again then .none else .error)) := by
  have hnot : ¬(tunnel.conn.state.closed || tunnel.conn.inState.closed ||
      tunnel.conn.outState.closed) = true := by
    rw [Bool.or_eq_true, Bool.or_eq_true, or_assoc]
    exact hopen
  rw [changes, ht]
  dsimp only
  rw [handleStateChanges, if_neg hnot]
  rcases stateLoop (List.range' 1 255) conns c with ⟨_ | _ | _, c', conns'⟩ <;> rfl

/-- An update that ends before the pump sends nothing. -/
theorem not_sendsOldest_of_stop {c' : Controller} {cause : CloseCause}
    (h : beforeTransfer env.poll c = .ok (c', .inl cause)) : ¬SendsOldest env c := by
  rintro ⟨c₁, conns, t, command, hbefore, -⟩
  cases h.symm.trans hbefore

/-- What an update sends that enters the pump. -/
theorem sendingFrom_of_pump {c₂ : Controller} {t : Slot}
    (h : beforeTransfer env.poll c = .ok (c₁, .inr conns)) (ht : lookup c₁.slots conns 0 = some t)
    (hrecv : recvFromTunnel (onCommand env.pump.connect) env.pump conns c₁ = .ok c₂) :
    sendingFrom env c = some (conns, t, c₂) := by
  unfold sendingFrom
  rw [h]
  dsimp only
  rw [ht, hrecv]
  rfl

/-- An update that enters the pump sends the oldest command, unless `recv_from_tunnel` ends the
process, or a frame is stored over others. -/
theorem sendsOldest_of_pump {t : Slot} (h : beforeTransfer env.poll c = .ok (c₁, .inr conns))
    (hready : PumpReady conns c₁) (ht : lookup c₁.slots conns 0 = some t)
    (hroom : 5 ≤ bufFreeLength t.conn.outBuf) (hqueue : c.pump.cmdQueue.length ≠ 0)
    {added : List Command}
    (hadded : c₁.pump.cmdQueue.contents = c.pump.cmdQueue.contents ++ added) :
    SendsOldest env c ↔
      acceptsInput env.pump.wild (outputsAt c₁.slots conns) c₁.pump.sendingTo
        t.conn.inBuf = true ∧ SendsInLine env c := by
  rw [← recvFromTunnel_ok_iff (onCommand env.pump.connect) hready ht]
  constructor
  · rintro ⟨c₁', conns', t', command, hbefore, ht', -, hsends⟩
    obtain ⟨rfl, hconns⟩ := Prod.mk.inj (Except.ok.inj (hbefore.symm.trans h))
    obtain rfl := Sum.inr.inj hconns
    obtain rfl := Option.some.inj (ht'.symm.trans ht)
    obtain ⟨c', hc', -⟩ := hsends.transfers hready.nodup ht
    obtain ⟨c₂, hrecv, -⟩ := exists_of_pumpTransfer hc'
    refine ⟨⟨c₂, hrecv⟩, fun p hp => ?_⟩
    obtain rfl := Option.some.inj ((sendingFrom_of_pump h ht hrecv).symm.trans hp)
    exact inLine_of_gets hready ht hrecv (hsends.mono fun c'' ⟨⟨_, hgets⟩, _⟩ => ⟨_, hgets⟩)
  · rintro ⟨⟨c₂, hrecv⟩, hline⟩
    replace hline := hline _ (sendingFrom_of_pump h ht hrecv)
    obtain ⟨later, hlater⟩ := (recvFromTunnel_receipt hready hrecv).1.queue
    obtain ⟨command, rest, hcontents⟩ := List.exists_cons_of_ne_nil
      fun hnil => hqueue (c.pump.cmdQueue.contents_eq_nil_iff.mp hnil)
    have hhead : c₂.pump.cmdQueue.contents.head? = some command := by
      rw [hlater, hadded, hcontents]
      rfl
    obtain ⟨events, hevents⟩ := eventsToSend_of_head conns hhead hroom
    refine ⟨c₁, conns, t, command, h, ht, by rw [hcontents]; rfl, fun mem hmem => ?_⟩
    obtain ⟨c', hc', hqueue', hgets⟩ :=
      alwaysTransfers_of_inLine hready ht hrecv hline mem hmem
    obtain ⟨d, hc, hd⟩ := pumpTransfer_unseen hready ht hrecv mem
    obtain rfl := Except.ok.inj (hc.symm.trans hc')
    refine ⟨_, hc', ⟨events, hevents ▸ hgets⟩, ?_⟩
    -- the oldest command has left the queue
    rw [cap_sendToTunnel hd.ready.nodup hd.ready.entries, hd.pump]
    obtain ⟨queued, hqueued⟩ := List.head?_eq_some_iff.mp hhead
    have hlen := congrArg List.length hqueued
    have hleft := congrArg List.length hqueue'
    rw [List.length_cons, CmdQueue.length_contents] at hlen
    rw [List.length_drop, CmdQueue.length_contents, CmdQueue.length_contents] at hleft
    have hle := c₂.pump.cmdQueue.length_le
    omega

/-- Writing frees room. -/
theorem bufFreeLength_bufWrite (r : WriteResult) (buf : RoundBuffer) :
    bufFreeLength buf ≤ bufFreeLength (bufWrite r buf).2.2 := by
  unfold bufWrite
  dsimp only
  split_ifs
  · exact Nat.le_refl _
  · cases r with
    | error e => exact Nat.le_refl _
    | taken n =>
      dsimp only
      rw [bufFreeLength, bufFreeLength, length_bufAdvanceReadPtr, capacity_bufAdvanceReadPtr]
      omega

/-- The manager fills no output. -/
theorem SlotOp.bufFreeLength_le {s s' : Slot} (h : SlotOp s s') :
    bufFreeLength s.conn.outBuf ≤ bufFreeLength s'.conn.outBuf := by
  cases h with
  | close => rcases closeSocket_cases s with ⟨-, h⟩ | ⟨-, -, h⟩ | ⟨-, -, h⟩ <;> rw [h] <;> rfl
  | arm =>
    obtain ⟨pfd, h, -⟩ := armOutput_eq s
    rw [h]
  | poll => exact Nat.le_refl _
  | receive r _ halive =>
    rcases receive_cases r s with h | ⟨_, _, h, -, -, rfl | ⟨_, rfl⟩⟩ <;> rw [h]
  | transmit r _ halive =>
    rcases transmit_cases r s with h | ⟨_, _, h, -, -, rfl | ⟨-, rfl⟩⟩ <;> rw [h]
    exact bufFreeLength_bufWrite r s.conn.outBuf

/-- The room in the output of a connection that is still there after polling and sorting. -/
theorem WellFormed.bufFreeLength_polled (h : WellFormed c)
    (hpoll : cmPoll env.poll c.manager = .ok (m, .none)) {s t : Slot} (hs : s ∈ c.slots)
    (ht : t ∈ (c.polled m).slots) (href : t.ref = s.ref) :
    bufFreeLength s.conn.outBuf ≤ bufFreeLength t.conn.outBuf := by
  have hwf : WellFormed { c with manager := m } := h.poll hpoll
  obtain ⟨u, hu, hass⟩ := hwf.mem_slots_sort ht
  have hout : t.conn.outBuf = u.conn.outBuf := by
    rcases hass with rfl | ⟨-, id, -, rfl⟩ <;> rfl
  have huref : u.ref = s.ref := hass.ref.symm.trans href
  rw [hout]
  rcases mem_slots_poll hpoll hu with ⟨s', hs', -, hrun⟩ | ⟨hfresh, -⟩
  · have hsame : s' = s := eq_of_ref_eq h.nodup hs' hs (hrun.keeps.ref.symm.trans huref)
    exact hrun.keep (P := fun u => bufFreeLength s.conn.outBuf ≤ bufFreeLength u.conn.outBuf)
      (fun hop hle => hle.trans hop.bufFreeLength_le) (hsame ▸ Nat.le_refl _)
  · have hlt := h.allocated s hs
    have hnew : u.ref = c.manager.nextRef := hfresh.ref
    omega

/-- **Who empties the queue.** Let the output of the tunnel have room for one command, and `cm_poll`
leave the manager `m`. The update sends the oldest queued command, and leaves room in the queue,
exactly if the tunnel is still open, the commands that are due fit into the queue behind those that
wait, `recv_from_tunnel` accepts the tunnel's input, and no frame is stored over others. -/
theorem sendsOldest_iff {s : Slot} (h : WellFormed c) (hs : s ∈ c.slots)
    (hroom : 5 ≤ bufFreeLength s.conn.outBuf) (hqueue : c.pump.cmdQueue.length ≠ 0)
    (hpoll : cmPoll env.poll c.manager = .ok (m, .none))
    (ht : lookup (c.polled m).slots (Controller.sorted { c with manager := m }) 0 = some tunnel)
    (href : tunnel.ref = s.ref) :
    SendsOldest env c ↔
      ¬TunnelClosed tunnel ∧ (c.polled m).due.length ≤ c.pump.cmdQueue.room ∧
        acceptsInput env.pump.wild (keptOutputs (c.polled m).slots) c.pump.sendingTo
          tunnel.conn.inBuf = true ∧ SendsInLine env c := by
  obtain ⟨hwf, hconns, hdel⟩ := h.polled hpoll
  replace hroom := hroom.trans (h.bufFreeLength_polled hpoll hs (lookup_eq_some ht).1 href)
  have hbefore : beforeTransfer env.poll c =
    changes (Controller.sorted { c with manager := m }) (c.polled m) :=
    beforeTransfer_of_cmPoll hpoll
  by_cases hclosed : TunnelClosed tunnel
  · have hstop : beforeTransfer env.poll c = .ok (c.polled m, .inl .error) := by
      rw [hbefore, changes, ht]
      dsimp only
      rw [handleStateChanges_of_tunnelClosed hclosed]
    exact iff_of_false (not_sendsOldest_of_stop hstop) fun hcond => hcond.1 hclosed
  rw [changes_of_open ht hclosed] at hbefore
  have hloop := stateLoop_announces List.nodup_range' (hconns.entered hwf hdel (List.range' 1 255))
  by_cases hfits : (c.polled m).due.length ≤ c.pump.cmdQueue.room
  · have hok : (stateLoop (List.range' 1 255) (Controller.sorted { c with manager := m })
        (c.polled m)).1 = .ok := hloop.result.trans (if_neg (Nat.not_lt.mpr hfits))
    have hopen : tunnel.conn.state.closed = false :=
      Bool.eq_false_iff.mpr fun hc => hclosed (.inl hc)
    obtain ⟨hready, ⟨t, ht₁, hin, hout⟩, houtputs, hsend⟩ :=
      stateLoop_handed hwf hconns hdel ht hopen hok
    rw [if_pos hok] at hbefore
    have hiff := sendsOldest_of_pump hbefore hready ht₁ (hout ▸ hroom) hqueue
      hloop.announced.contents
    rw [hiff, houtputs, hsend, hin]
    exact ⟨fun hpump => ⟨hclosed, hfits, hpump⟩, fun hcond => hcond.2.2⟩
  · have hagain : (stateLoop (List.range' 1 255) (Controller.sorted { c with manager := m })
        (c.polled m)).1 = .again := hloop.result.trans (if_pos (Nat.not_le.mp hfits))
    rw [if_neg (by rw [hagain]; rintro ⟨⟩)] at hbefore
    exact iff_of_false (not_sendsOldest_of_stop hbefore) fun hcond => hfits hcond.2.1

/-! ### Samples -/

/-- An accepting endpoint with `n` commands in its queue. -/
def withQueued (n : ℕ) (h : n ≤ queueSize) : Controller :=
  (startController sampleStart sampleBufSize true).setQueue
    { cap := queueSize
      offset := 0
      length := n
      queue := fun _ => ⟨cmdAck, 1, 0⟩
      offset_lt := queueSize.pos
      length_le := h }

theorem wellFormed_withQueued (n : ℕ) (h : n ≤ queueSize) : WellFormed (withQueued n h) :=
  have hstart := wellFormed_startController sampleStart sampleBufSize true
  ⟨hstart.nodup, hstart.allocated, hstart.slotOk, hstart.freeIds, hstart.sendingTo⟩

/-- What an update meets: the cause of `cm_poll`, the address of the tunnel, whether the tunnel is
closed, how many commands are due, whether the tunnel's input is accepted, and whether what is to be
sent is in line. -/
def meets (env : Env) (c : Controller) :
    Option (CloseCause × Option (ℕ × Bool × Bool) × ℕ × Bool) :=
  (cmPoll env.poll c.manager).toOption.map fun r =>
    let sorted := Controller.sorted { c with manager := r.1 }
    (r.2,
      (lookup (c.polled r.1).slots sorted 0).map fun t =>
        (t.ref, decide (TunnelClosed t),
          acceptsInput env.pump.wild (keptOutputs (c.polled r.1).slots) c.pump.sendingTo
            t.conn.inBuf),
      (c.polled r.1).due.length, decide (SendsInLine env c))

/-- One command waits when a client comes: it is sent. -/
theorem sendsOldest_oneQueued :
    SendsOldest ⟨clientComes 7, samplePump⟩ (withQueued 1 queueSize.pos) := by
  have hmeets : meets ⟨clientComes 7, samplePump⟩ (withQueued 1 queueSize.pos) =
      some (.none, some (0, false, true), 1, true) := by decide +kernel
  obtain ⟨⟨m, cause⟩, hpoll, hr⟩ := Option.map_eq_some_iff.mp hmeets
  obtain ⟨rfl, hr⟩ := Prod.mk.inj hr
  obtain ⟨hlookup, hr⟩ := Prod.mk.inj hr
  obtain ⟨hdue, hline⟩ := Prod.mk.inj hr
  obtain ⟨t, ht, hsample⟩ := Option.map_eq_some_iff.mp hlookup
  obtain ⟨href, hsample⟩ := Prod.mk.inj hsample
  obtain ⟨hopen, haccepts⟩ := Prod.mk.inj hsample
  refine (sendsOldest_iff (wellFormed_withQueued 1 queueSize.pos) List.mem_cons_self (by decide)
    Nat.one_ne_zero (eq_ok_of_toOption hpoll) ht href).mpr
      ⟨of_decide_eq_false hopen, ?_, haccepts, of_decide_eq_true hline⟩
  rw [hdue]
  decide

/-- The queue is full when a client comes: no command is sent, and the queue stays full. -/
theorem not_sendsOldest_fullQueue :
    ∃ c env, WellFormed c ∧ c.pump.cmdQueue.length = 512 ∧
      (∃ s ∈ c.slots, s.conn.id = 0 ∧ ¬TunnelClosed s ∧ 5 ≤ bufFreeLength s.conn.outBuf) ∧
      (∃ m, cmPoll env.poll c.manager = .ok (m, .none)) ∧ ¬SendsOldest env c ∧
      ∃ c', update env c = .ok (c', .none) ∧ c'.pump.cmdQueue.length = 512 := by
  refine ⟨withQueued 512 (Nat.le_refl _), ⟨clientComes 7, samplePump⟩,
    wellFormed_withQueued _ _, rfl,
    ⟨_, List.mem_cons_self, rfl, by decide, by decide⟩, ?_, ?_⟩
  · have hpoll :
        (cmPoll (clientComes 7) (withQueued 512 (Nat.le_refl _)).manager).toOption.map Prod.snd =
          some .none := by decide +kernel
    obtain ⟨⟨m, cause⟩, hm, rfl⟩ := Option.map_eq_some_iff.mp hpoll
    exact ⟨m, eq_ok_of_toOption hm⟩
  · have hstop : (beforeTransfer (clientComes 7) (withQueued 512 (Nat.le_refl _))).toOption.map
        (fun r => (r.1.pump.cmdQueue.length, r.2.getLeft?)) = some (512, some .none) := by
      decide +kernel
    obtain ⟨⟨c', next⟩, hc, hnext⟩ := Option.map_eq_some_iff.mp hstop
    obtain ⟨hlen, hleft⟩ := Prod.mk.inj hnext
    obtain rfl := Sum.getLeft?_eq_some_iff.mp hleft
    replace hc := eq_ok_of_toOption hc
    exact ⟨not_sendsOldest_of_stop hc, c', update_of_stop hc, hlen⟩

end OsTasks.PortForwarding
