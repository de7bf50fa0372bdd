import OsTasks.PortForwarding.EncodeFrame
import OsTasks.PortForwarding.Sharing
import OsTasks.PortForwarding.TunnelFormat
import OsTasks.PortForwarding.Unseen

/-!
# The frames of one transfer

After receiving, `pump_transfer` appends frames to the output of the tunnel: those of the queued
commands, as long as five bytes are free, and, if there was room for all of them, those of the
inputs of the connections in the order of the loop, each with as many bytes as fit.

## Main definitions

* `eventsToSend`: what these frames carry.
* `AlwaysTransfers`: what holds after `pump_transfer`, whatever the cells of the tunnel's output
  without unread bytes hold.

## Main results

* `sendToTunnel_output`: these frames are put into the output of the tunnel, one after the other.
* `pumpTransfer_unseen`: `pump_transfer` with other bytes in the output of the tunnel.
* `inLine_of_gets`: frames that are always whole in the tunnel do not come behind wrapped bytes.
-/

namespace OsTasks.PortForwarding

variable {conns : Conns} {c c₁ d : Controller} {s tunnel : Slot} {room : ℕ}

/-! ### The loop over the queue -/

/-- `encode_command` needs room for five bytes. -/
theorem encodeCommand_of_room {buf : RoundBuffer} (h : 5 ≤ bufFreeLength buf) (cmd arg : UInt8) :
    encodeCommand buf cmd arg = (true, buf.put (commandFrame cmd arg)) := by
  rcases encodeCommand_spec buf cmd arg with hnone | ⟨-, hput⟩
  · unfold encodeCommand at hnone
    rw [if_neg (Nat.not_lt.mpr h)] at hnone
    exact absurd (Prod.mk.inj hnone).1 Bool.true_eq_false.mp
  · exact hput

theorem encodeCommand_of_no_room {buf : RoundBuffer} (h : bufFreeLength buf < 5) (cmd arg : UInt8) :
    encodeCommand buf cmd arg = (false, buf) := if_pos h

/-- The endpoint after the oldest command has been sent. -/
def Controller.sendFirst (c : Controller) (tunnel : Slot) : Controller :=
  let r := cmdqDequeue c.pump.cmdQueue
  ((c.setQueue r.2).modify tunnel.ref fun conn =>
    { conn with outBuf := (encodeCommand tunnel.conn.outBuf r.1.cmd r.1.arg).2 }).note (.sent r.1)

theorem lookup_sendFirst (ht : lookup c.slots conns 0 = some tunnel) :
    lookup (c.sendFirst tunnel).slots conns 0 = some { tunnel with conn := { tunnel.conn with
      outBuf := (encodeCommand tunnel.conn.outBuf (cmdqDequeue c.pump.cmdQueue).1.cmd
        (cmdqDequeue c.pump.cmdQueue).1.arg).2 } } := by
  have hslots : (c.sendFirst tunnel).slots = modifyConn c.slots tunnel.ref fun conn =>
      { conn with outBuf := (encodeCommand tunnel.conn.outBuf (cmdqDequeue c.pump.cmdQueue).1.cmd
        (cmdqDequeue c.pump.cmdQueue).1.arg).2 } := rfl
  rw [hslots, lookup_modifyConn, ht, Option.map_some, modifySlot_self]

/-- Sending a command changes the tunnel only. -/
theorem sendFirst_sent (hnd : (c.slots.map Slot.ref).Nodup) (hentries : EntriesAt conns c.slots)
    (ht : lookup c.slots conns 0 = some tunnel) :
    SlotsSent c.slots (c.sendFirst tunnel).slots ∧
      ∀ i ≠ 0, lookup (c.sendFirst tunnel).slots conns i = lookup c.slots conns i := by
  have hid := hentries.tunnel_id hnd ht
  let f : Connection → Connection := fun conn =>
    { conn with outBuf := (encodeCommand tunnel.conn.outBuf (cmdqDequeue c.pump.cmdQueue).1.cmd
      (cmdqDequeue c.pump.cmdQueue).1.arg).2 }
  have hsent : SlotsSent c.slots (modifyConn c.slots tunnel.ref f) :=
    slotsSent_modifyConn hnd (lookup_eq_some ht).1 ⟨⟨rfl, rfl, rfl, rfl, rfl, rfl, rfl, rfl,
      length_encodeCommand ..⟩, fun _ => rfl, fun hne => absurd hid hne⟩
  refine ⟨hsent, fun i hi => ?_⟩
  refine (lookup_modifyConn c.slots conns tunnel.ref f i).trans ?_
  cases hs : lookup c.slots conns i with
  | none => rfl
  | some s => rw [Option.map_some, modifySlot_of_ne (hentries.ref_ne hnd hs ht hi)]

theorem length_sendFirst {n : ℕ} (hn : c.pump.cmdQueue.length = n + 1) (tunnel : Slot) :
    (c.sendFirst tunnel).pump.cmdQueue.length = n := by
  change (cmdqDequeue c.pump.cmdQueue).2.length = n
  rw [length_cmdqDequeue, hn, Nat.add_sub_cancel]

/-- One turn of the loop. -/
theorem drainCommands_succ (ht : lookup c.slots conns 0 = some tunnel)
    (hqueue : c.pump.cmdQueue.length ≠ 0) (n : ℕ) :
    drainCommands conns (n + 1) c =
      if 5 ≤ bufFreeLength tunnel.conn.outBuf then drainCommands conns n (c.sendFirst tunnel)
      else (false, (c.setQueue (cmdqDequeue c.pump.cmdQueue).2).note
        (.dropped (cmdqDequeue c.pump.cmdQueue).1)) := by
  have ht' : lookup (c.setQueue (cmdqDequeue c.pump.cmdQueue).2).slots conns 0 = some tunnel := ht
  rw [drainCommands]
  unfold cmdqLength
  rw [if_neg hqueue]
  simp only [ht']
  split_ifs with hfits hroom hroom
  · rfl
  · rw [encodeCommand_of_no_room (Nat.lt_of_not_le hroom)] at hfits
    exact absurd hfits Bool.false_ne_true
  · rw [encodeCommand_of_room hroom] at hfits
    exact absurd rfl hfits
  · rfl

/-- What the frame of a command carries. -/
def Command.event (command : Command) : TunnelEvent := .command command.cmd command.arg

theorem stream_eq_flatten (events : List TunnelEvent) :
    (events.map TunnelEvent.frame).flatten = stream events := List.flatMap_def.symm

theorem length_stream_commands (commands : List Command) :
    (stream (commands.map Command.event)).length = 5 * commands.length := by
  induction commands with
  | nil => rfl
  | cons command commands ih =>
    rw [List.map_cons, stream, List.flatMap_cons, List.length_append, ← stream, ih,
      List.length_cons]
    change 5 + _ = _
    omega

/-- What is left of the endpoint by the loop over the queue: it goes on to the connections if there
was room for all commands, it has taken one command more from the queue than it has sent if there
was not, and it has changed the tunnel only. -/
structure QueueSent (conns : Conns) (tunnel : Slot) (c : Controller) (r : Bool × Controller) :
    Prop where
  result : r.1 = decide (5 * c.pump.cmdQueue.length ≤ bufFreeLength tunnel.conn.outBuf)
  queue : r.2.pump.cmdQueue.contents =
    c.pump.cmdQueue.contents.drop (bufFreeLength tunnel.conn.outBuf / 5 + 1)
  output : ∃ t, lookup r.2.slots conns 0 = some t ∧ t.conn.outBuf = tunnel.conn.outBuf.putAll
    (((c.pump.cmdQueue.contents.take (bufFreeLength tunnel.conn.outBuf / 5)).map
      Command.event).map TunnelEvent.frame)
  others : ∀ i ≠ 0, lookup r.2.slots conns i = lookup c.slots conns i

theorem drainCommands_output {n : ℕ} (hn : c.pump.cmdQueue.length = n)
    (hnd : (c.slots.map Slot.ref).Nodup) (hentries : EntriesAt conns c.slots)
    (ht : lookup c.slots conns 0 = some tunnel) :
    QueueSent conns tunnel c (drainCommands conns n c) := by
  induction n generalizing c tunnel with
  | zero =>
    have hempty := c.pump.cmdQueue.contents_eq_nil_iff.mpr hn
    refine ⟨by simp [drainCommands, hn], ?_, ⟨tunnel, ht, ?_⟩, fun _ _ => rfl⟩
    · rw [hempty, List.drop_nil]
      exact hempty
    · rw [hempty, List.take_nil]
      rfl
  | succ n ih =>
    have hne : c.pump.cmdQueue.length ≠ 0 := by omega
    have hcontents := contents_cmdqDequeue hne
    rw [drainCommands_succ ht hne]
    by_cases hfits : 5 ≤ bufFreeLength tunnel.conn.outBuf
    · rw [if_pos hfits]
      obtain ⟨hsent, hothers⟩ := sendFirst_sent hnd hentries ht
      have hlen : (c.sendFirst tunnel).pump.cmdQueue.length = n := length_sendFirst hn tunnel
      obtain ⟨hresult, hqueue, ⟨t, ht', hout⟩, hrest⟩ := ih hlen (hsent.map_ref ▸ hnd)
        (hsent.entriesAt hentries) (lookup_sendFirst ht)
      let first := (cmdqDequeue c.pump.cmdQueue).1
      have hfree : bufFreeLength (encodeCommand tunnel.conn.outBuf first.cmd first.arg).2 =
          bufFreeLength tunnel.conn.outBuf - 5 := by
        have hframe : (commandFrame first.cmd first.arg).length ≤ _ := hfits
        rw [encodeCommand_of_room hfits]
        exact bufFreeLength_put hframe
      have hfive : bufFreeLength tunnel.conn.outBuf / 5 =
          (bufFreeLength tunnel.conn.outBuf - 5) / 5 + 1 := by omega
      have hqueued : c.pump.cmdQueue.contents =
          first :: (c.sendFirst tunnel).pump.cmdQueue.contents := hcontents
      dsimp only at hresult hqueue hout
      rw [hfree] at hresult hqueue hout
      refine ⟨hresult.trans (decide_eq_decide.mpr (by omega)), ?_, ⟨t, ht', ?_⟩,
        fun i hi => (hrest i hi).trans (hothers i hi)⟩
      · rw [hqueue, hfive, hqueued]
        rfl
      · rw [hout, hfive, hqueued, List.take_succ_cons, List.map_cons, List.map_cons, putAll_cons,
          encodeCommand_of_room hfits]
        rfl
    · rw [if_neg hfits]
      have hzero : bufFreeLength tunnel.conn.outBuf / 5 = 0 := by omega
      refine ⟨?_, ?_, ⟨tunnel, ht, ?_⟩, fun _ _ => rfl⟩
      · exact (decide_eq_false (by omega)).symm
      · rw [hzero, hcontents]
        rfl
      · rw [hzero]
        rfl

/-! ### The loop over the connections -/

/-- What the frames for the inputs of connections carry, when there is room for some bytes: a frame
has as many bytes as fit, and the first input whose frame does not fit ends the loop. -/
def fittingEvents : ℕ → List Slot → List TunnelEvent
  | _, [] => []
  | room, s :: rest =>
    if room < 4 ∨ s.conn.inBuf.contents.head? = some escByte ∧ room < 5 then []
    else
      let event := TunnelEvent.data (toByte s.conn.id) (fitting (room - 3) s.conn.inBuf.contents)
      event :: fittingEvents (room - event.frame.length) rest

/-- What a data frame of a connection carries. -/
def TunnelEvent.IsData : TunnelEvent → Prop
  | .command _ _ => False
  | .data id _ => id ≠ 0

theorem isData_of_mem_fittingEvents {room : ℕ} {inputs : List Slot}
    (h : ∀ s ∈ inputs, toByte s.conn.id ≠ 0) : ∀ e ∈ fittingEvents room inputs, e.IsData := by
  induction inputs generalizing room with
  | nil => exact fun e he => absurd he List.not_mem_nil
  | cons s rest ih =>
    obtain ⟨hs, hrest⟩ := List.forall_mem_cons.mp h
    rw [fittingEvents]
    split_ifs
    · exact fun e he => absurd he List.not_mem_nil
    · exact List.forall_mem_cons.mpr ⟨hs, ih hrest⟩

/-- The frames take no more than the room. -/
theorem length_fittingEvents (room : ℕ) (inputs : List Slot) :
    (stream (fittingEvents room inputs)).length ≤ room := by
  induction inputs generalizing room with
  | nil => exact Nat.zero_le _
  | cons s rest ih =>
    rw [fittingEvents]
    split_ifs with hfew
    · exact Nat.zero_le _
    · have hframe : (TunnelEvent.data (toByte s.conn.id)
          (fitting (room - 3) s.conn.inBuf.contents)).frame.length ≤ room := by
        have hfit : (escaped (fitting (room - 3) s.conn.inBuf.contents)).length ≤ room - 3 :=
          length_stuff_fit _ _
        rw [TunnelEvent.frame, length_dataFrame]
        omega
      have := ih (room - (TunnelEvent.data (toByte s.conn.id)
        (fitting (room - 3) s.conn.inBuf.contents)).frame.length)
      rw [stream, List.flatMap_cons, List.length_append]
      unfold stream at this
      omega

/-- Other connections are left alone. -/
theorem lookup_encodeTo_of_ne {i j : ℕ} (hnd : (c.slots.map Slot.ref).Nodup)
    (hentries : EntriesAt conns c.slots) (hs : lookup c.slots conns (i + 1) = some s)
    (ht : lookup c.slots conns 0 = some tunnel) (hi : j ≠ i + 1) (hj : j ≠ 0) :
    lookup (c.encodeTo s tunnel).slots conns j = lookup c.slots conns j := by
  rw [slots_encodeTo, lookup_modifyConn, lookup_modifyConn]
  cases hu : lookup c.slots conns j with
  | none => rfl
  | some u =>
    rw [Option.map_some, modifySlot_of_ne (hentries.ref_ne hnd hu hs hi), Option.map_some,
      modifySlot_of_ne (hentries.ref_ne hnd hu ht hj)]

/-- The connection itself. -/
theorem lookup_encodeTo_self {i : ℕ} (hnd : (c.slots.map Slot.ref).Nodup)
    (hentries : EntriesAt conns c.slots) (hs : lookup c.slots conns (i + 1) = some s)
    (ht : lookup c.slots conns 0 = some tunnel) :
    lookup (c.encodeTo s tunnel).slots conns (i + 1) = some { s with conn := { s.conn with
      inBuf := (encode s.conn.inBuf tunnel.conn.outBuf (toByte s.conn.id)).2.1 } } := by
  have hne : s.ref ≠ tunnel.ref := hentries.ref_ne hnd hs ht (Nat.succ_ne_zero i)
  rw [slots_encodeTo, lookup_modifyConn, lookup_modifyConn, hs, Option.map_some, modifySlot_self,
    Option.map_some]
  exact congrArg some (if_neg hne)

theorem pendingAt_eq_of_lookup {j : ℕ} (h : lookup d.slots conns j = lookup c.slots conns j) :
    pendingAt conns d j = pendingAt conns c j := by
  rw [pendingAt, h]
  rfl

theorem pendingAt_eq_some_iff {j : ℕ} : pendingAt conns c j = some s ↔
    lookup c.slots conns j = some s ∧ isAlive s.conn.state = true ∧
      isAlive s.conn.inState = true ∧ s.conn.inBuf.length ≠ 0 := by
  simp [pendingAt, Option.filter_eq_some_iff, bufEmpty, and_assoc]

/-- One turn of the loop: nothing is done for a connection that is skipped or has nothing unread,
and otherwise the loop goes on if there is room for some bytes. -/
theorem encodeConnections_turn (index i : ℕ) (is : List ℕ) (hnd : (c.slots.map Slot.ref).Nodup)
    (ht : lookup c.slots conns 0 = some tunnel) :
    (pendingAt conns c ((index + i) % 255 + 1) = none ∧ ∃ c', c'.slots = c.slots ∧
      encodeConnections conns index (i :: is) c = encodeConnections conns index is c') ∨
    ∃ u, pendingAt conns c ((index + i) % 255 + 1) = some u ∧
      encodeConnections conns index (i :: is) c =
        if (encode u.conn.inBuf tunnel.conn.outBuf (toByte u.conn.id)).1 then
          encodeConnections conns index is (c.encodeTo u tunnel)
        else { c with pump := { c.pump with currentIndex := (index + i) % 255 + 1 } } := by
  cases hi : lookup c.slots conns ((index + i) % 255 + 1) with
  | none =>
    refine .inl ⟨by rw [pendingAt, hi]; rfl, c, rfl, ?_⟩
    rw [encodeConnections, hi]
  | some u =>
    rw [encodeConnections_cons index i is hi ht]
    by_cases hdead : (!isAlive u.conn.state || !isAlive u.conn.inState) = true
    · rw [if_pos hdead]
      refine .inl ⟨?_, c, rfl, rfl⟩
      rw [← Bool.not_and, Bool.not_eq_true'] at hdead
      rw [pendingAt, hi, Option.filter_some, hdead]
      rfl
    rw [if_neg hdead]
    by_cases hempty : u.conn.inBuf.length = 0
    · rw [encode_of_empty hempty, if_pos rfl]
      refine .inl ⟨?_, _, slots_encodeTo_of_empty hnd (lookup_eq_some hi).1 (lookup_eq_some ht).1
        hempty, rfl⟩
      rw [pendingAt, hi, Option.filter_some, (bufEmpty_iff _).mpr hempty, Bool.not_true,
        Bool.and_false]
      rfl
    · rw [← Bool.not_and, Bool.not_eq_true', Bool.not_eq_false, Bool.and_eq_true] at hdead
      exact .inr ⟨u, pendingAt_eq_some_iff.mpr ⟨hi, hdead.1, hdead.2, hempty⟩, rfl⟩

/-- What is pending at the other ids is still pending. -/
theorem filterMap_pendingAt_encodeTo {i : ℕ} {ids : List ℕ} (hnd : (c.slots.map Slot.ref).Nodup)
    (hentries : EntriesAt conns c.slots) (hs : lookup c.slots conns (i + 1) = some s)
    (ht : lookup c.slots conns 0 = some tunnel) (hnew : i + 1 ∉ ids) (hpos : 0 ∉ ids) :
    ids.filterMap (pendingAt conns (c.encodeTo s tunnel)) = ids.filterMap (pendingAt conns c) :=
  List.filterMap_congr fun _ hj => pendingAt_eq_of_lookup (lookup_encodeTo_of_ne hnd hentries hs ht
    (fun heq => hnew (heq ▸ hj)) fun heq => hpos (heq ▸ hj))

theorem zero_notMem_visited (index : ℕ) (is : List ℕ) :
    0 ∉ is.map fun i => (index + i) % 255 + 1 := by
  intro hmem
  obtain ⟨k, -, hk⟩ := List.mem_map.mp hmem
  exact Nat.succ_ne_zero _ hk

/-- **The frames of the inputs** are put into the output of the tunnel. -/
theorem encodeConnections_output (index : ℕ) (is : List ℕ) (hnd : (c.slots.map Slot.ref).Nodup)
    (hentries : EntriesAt conns c.slots) (ht : lookup c.slots conns 0 = some tunnel)
    (hids : (is.map fun i => (index + i) % 255 + 1).Nodup) :
    ∃ t, lookup (encodeConnections conns index is c).slots conns 0 = some t ∧
      t.conn.outBuf = tunnel.conn.outBuf.putAll
        ((fittingEvents (bufFreeLength tunnel.conn.outBuf)
          ((is.map fun i => (index + i) % 255 + 1).filterMap (pendingAt conns c))).map
            TunnelEvent.frame) := by
  induction is generalizing c tunnel with
  | nil => exact ⟨tunnel, ht, rfl⟩
  | cons i is ih =>
    rw [List.map_cons] at hids ⊢
    obtain ⟨hnew, hids⟩ := List.nodup_cons.mp hids
    rcases encodeConnections_turn index i is hnd ht with ⟨hnone, c', hsame, hturn⟩ | ⟨u, hu, hturn⟩
    · rw [hturn, List.filterMap_cons_none hnone, ← pendingAt_congr hsame]
      exact ih (hsame.symm ▸ hnd) (hsame.symm ▸ hentries) (hsame.symm ▸ ht) hids
    · obtain ⟨hi, -, -, hne⟩ := pendingAt_eq_some_iff.mp hu
      have hrefused := encode_eq_false_iff u.conn.inBuf tunnel.conn.outBuf (toByte u.conn.id)
      rw [hturn, List.filterMap_cons_some hu, fittingEvents]
      by_cases hfew : bufFreeLength tunnel.conn.outBuf < 4 ∨
          u.conn.inBuf.contents.head? = some escByte ∧ bufFreeLength tunnel.conn.outBuf < 5
      · rw [if_pos hfew, if_neg (Bool.eq_false_iff.mp (hrefused.mpr ⟨hne, hfew⟩))]
        exact ⟨tunnel, ht, rfl⟩
      have hfits : (encode u.conn.inBuf tunnel.conn.outBuf (toByte u.conn.id)).1 = true :=
        Bool.eq_true_of_not_eq_false fun hfalse => hfew (hrefused.mp hfalse).2
      obtain ⟨hsent, htunnel⟩ := encodeTo_sent hnd hentries hi ht
      rw [if_neg hfew, if_pos hfits,
        ← filterMap_pendingAt_encodeTo hnd hentries hi ht hnew (zero_notMem_visited index is)]
      rcases encode_spec u.conn.inBuf tunnel.conn.outBuf (toByte u.conn.id) with
        hnone | ⟨-, hroom, hput⟩
      · rw [hnone] at hfits
        exact absurd ((bufEmpty_iff _).mp hfits) hne
      · obtain ⟨t, ht', hout⟩ := ih (hsent.map_ref ▸ hnd) (hsent.entriesAt hentries) htunnel hids
        refine ⟨t, ht', hout.trans ?_⟩
        dsimp only
        rw [hput, bufFreeLength_put hroom]
        rfl

/-- Encoding the inputs is not about the queue. -/
theorem cmdQueue_encodeConnections (index : ℕ) (is : List ℕ) (hnd : (c.slots.map Slot.ref).Nodup)
    (hentries : EntriesAt conns c.slots) :
    (encodeConnections conns index is c).pump.cmdQueue = c.pump.cmdQueue := by
  refine encodeConnections_induction (P := fun c' => c'.pump.cmdQueue = c.pump.cmdQueue)
    (fun _ _ _ _ _ _ h => ?_) (fun _ h => h) index is hnd hentries rfl
  refine Eq.trans ?_ h
  unfold Controller.encodeTo
  dsimp only
  split <;> rfl

/-! ### After receiving -/

/-- The connections with unread input that the loop does not skip, in its order. -/
def pendingInputs (conns : Conns) (c : Controller) : List Slot :=
  (visitOrder c.pump.currentIndex).filterMap (pendingAt conns c)

/-- They are connections, not the tunnel. -/
theorem toByte_of_mem_pendingInputs (hnd : (c.slots.map Slot.ref).Nodup)
    (hentries : EntriesAt conns c.slots) :
    ∀ s ∈ pendingInputs conns c, toByte s.conn.id ≠ 0 := by
  intro s hs
  obtain ⟨j, hj, hpending⟩ := List.mem_filterMap.mp hs
  obtain ⟨hpos, hle⟩ := mem_visitOrder.mp hj
  rw [id_of_pendingAt hnd hentries hpending]
  intro hzero
  have htoNat := congrArg UInt8.toNat hzero
  have hmod : ((j : ℤ) % 256).toNat = j := by omega
  rw [toByte, hmod, UInt8.toNat_ofNat', UInt8.toNat_zero] at htoNat
  omega

/-- What the frames carry that `pump_transfer` appends after receiving, when `room` bytes are free
in the output of the tunnel. -/
def eventsToSend (conns : Conns) (room : ℕ) (c : Controller) : List TunnelEvent :=
  let commands := (c.pump.cmdQueue.contents.take (room / 5)).map Command.event
  if 5 * c.pump.cmdQueue.length ≤ room then
    commands ++ fittingEvents (room - 5 * c.pump.cmdQueue.length) (pendingInputs conns c)
  else commands

/-- With room for all commands, all of them are sent. -/
theorem eventsToSend_of_room (conns : Conns) {room : ℕ}
    (hroom : 5 * c.pump.cmdQueue.length ≤ room) :
    eventsToSend conns room c = c.pump.cmdQueue.contents.map Command.event ++
        fittingEvents (room - 5 * c.pump.cmdQueue.length) (pendingInputs conns c) ∧
      c.pump.cmdQueue.contents.drop (room / 5 + 1) = [] := by
  have hlen := c.pump.cmdQueue.length_contents
  unfold eventsToSend
  rw [if_pos hroom, List.take_of_length_le (by omega), List.drop_of_length_le (by omega)]
  exact ⟨rfl, rfl⟩

/-- The endpoint `e` in which `pump_transfer` comes to the connections, if there was room for all
commands. -/
structure PastCommands (conns : Conns) (tunnel : Slot) (c e : Controller) : Prop where
  transfer : sendToTunnel conns c =
    encodeConnections conns e.pump.currentIndex (List.range (maxConnections - 1)) e
  nodup : (e.slots.map Slot.ref).Nodup
  entries : EntriesAt conns e.slots
  pending : (visitOrder e.pump.currentIndex).filterMap (pendingAt conns e) = pendingInputs conns c
  output : ∃ t, lookup e.slots conns 0 = some t ∧
    bufFreeLength t.conn.outBuf = bufFreeLength tunnel.conn.outBuf - 5 * c.pump.cmdQueue.length
  drained : QueueSent conns tunnel c (true, e)

theorem exists_pastCommands (hnd : (c.slots.map Slot.ref).Nodup)
    (hentries : EntriesAt conns c.slots) (ht : lookup c.slots conns 0 = some tunnel)
    (hfits : 5 * c.pump.cmdQueue.length ≤ bufFreeLength tunnel.conn.outBuf) :
    ∃ e, PastCommands conns tunnel c e := by
  have hdrained := drainCommands_output (n := cmdqLength c.pump.cmdQueue) rfl hnd hentries ht
  obtain ⟨hsent, -⟩ := drainCommands_sent (cmdqLength c.pump.cmdQueue) hnd hentries
  have hindex := currentIndex_drainCommands conns (cmdqLength c.pump.cmdQueue) c
  have hall : drainCommands conns (cmdqLength c.pump.cmdQueue) c =
      (true, (drainCommands conns (cmdqLength c.pump.cmdQueue) c).2) :=
    Prod.ext (hdrained.result.trans (decide_eq_true hfits)) rfl
  rw [hall] at hdrained
  obtain ⟨t, ht', hout⟩ := hdrained.output
  refine ⟨_, sendToTunnel_of_sent hall, hsent.map_ref ▸ hnd, hsent.entriesAt hentries, ?_,
    ⟨t, ht', ?_⟩, hdrained⟩
  · rw [pendingInputs, hindex]
    refine List.filterMap_congr fun j hj => pendingAt_eq_of_lookup (hdrained.others j ?_)
    have := (mem_visitOrder.mp hj).1
    omega
  · have hlength := length_stream_commands
      (c.pump.cmdQueue.contents.take (bufFreeLength tunnel.conn.outBuf / 5))
    rw [List.length_take, CmdQueue.length_contents, Nat.min_eq_right (by omega),
      ← stream_eq_flatten] at hlength
    rw [hout, bufFreeLength_putAll (hlength.trans_le hfits), hlength]

/-- **The frames of one transfer** are put into the output of the tunnel. One command more has left
the queue, if there was no room for all of them. -/
theorem sendToTunnel_output (hnd : (c.slots.map Slot.ref).Nodup)
    (hentries : EntriesAt conns c.slots) (ht : lookup c.slots conns 0 = some tunnel) :
    (sendToTunnel conns c).pump.cmdQueue.contents =
        c.pump.cmdQueue.contents.drop (bufFreeLength tunnel.conn.outBuf / 5 + 1) ∧
      ∃ t, lookup (sendToTunnel conns c).slots conns 0 = some t ∧
        t.conn.outBuf = tunnel.conn.outBuf.putAll
          ((eventsToSend conns (bufFreeLength tunnel.conn.outBuf) c).map TunnelEvent.frame) := by
  unfold eventsToSend
  by_cases hfits : 5 * c.pump.cmdQueue.length ≤ bufFreeLength tunnel.conn.outBuf
  · obtain ⟨e, he⟩ := exists_pastCommands hnd hentries ht hfits
    obtain ⟨t, ht₁, hfree⟩ := he.output
    obtain ⟨t', ht₁', hout⟩ := he.drained.output
    obtain rfl := Option.some.inj (ht₁'.symm.trans ht₁)
    obtain ⟨t', ht', hout'⟩ := encodeConnections_output e.pump.currentIndex
      (List.range (maxConnections - 1)) he.nodup he.entries ht₁ (nodup_visitOrder _)
    rw [he.transfer, cmdQueue_encodeConnections _ _ he.nodup he.entries]
    refine ⟨he.drained.queue, t', ht', ?_⟩
    rw [hout', ← visitOrder, he.pending, hfree, hout, ← putAll_append, if_pos hfits,
      List.map_append]
  · obtain ⟨hresult, hqueue, hout, -⟩ :=
      drainCommands_output (n := cmdqLength c.pump.cmdQueue) rfl hnd hentries ht
    have hstop := Prod.ext (y := (false, _)) (hresult.trans (decide_eq_false hfits)) rfl
    rw [sendToTunnel_of_stopped hstop, if_neg hfits]
    exact ⟨hqueue, hout⟩

/-- The frames fit. -/
theorem length_eventsToSend (conns : Conns) (room : ℕ) (c : Controller) :
    ((eventsToSend conns room c).map TunnelEvent.frame).flatten.length ≤ room := by
  have hcommands := length_stream_commands (c.pump.cmdQueue.contents.take (room / 5))
  rw [List.length_take, CmdQueue.length_contents] at hcommands
  rw [stream_eq_flatten]
  unfold eventsToSend
  dsimp only
  split_ifs with hfits
  · have hinputs := length_fittingEvents (room - 5 * c.pump.cmdQueue.length) (pendingInputs conns c)
    rw [stream_append, List.length_append]
    omega
  · omega

/-- Every frame ends with an `END` byte. -/
theorem getLast?_stream {events : List TunnelEvent} (h : events ≠ []) :
    (stream events).getLast? = some endByte := by
  obtain ⟨init, e, rfl⟩ := List.eq_nil_or_concat' events |>.resolve_left h
  have hframe : e.frame.getLast? = some endByte := by
    cases e with
    | command cmd arg => rfl
    | data id bytes =>
      change ([endByte, id] ++ (escaped bytes ++ [endByte])).getLast? = _
      rw [← List.append_assoc, List.getLast?_concat]
  rw [stream_append, List.getLast?_append, stream, stream, List.flatMap_singleton, hframe]
  rfl

/-! ### Whatever the other cells hold -/

variable {env : PumpEnv} {mem : ℕ → UInt8} {P : Controller → Prop}

/-- Whatever the cells of the tunnel's output without unread bytes hold, `pump_transfer` returns,
and `P` holds afterwards. -/
def AlwaysTransfers (env : PumpEnv) (conns : Conns) (tunnel : Slot) (c : Controller)
    (P : Controller → Prop) : Prop :=
  ∀ mem, tunnel.conn.outBuf.Holds mem → ∃ c',
    pumpTransfer (onCommand env.connect) env conns (c.withOutput tunnel.ref mem) = .ok c' ∧ P c'

/-- The output of the tunnel has the unread bytes that it had in `tunnel`, and the frames of
`events` behind them. -/
def TunnelGets (conns : Conns) (tunnel : Slot) (events : List TunnelEvent) (c' : Controller) :
    Prop :=
  ∃ t, lookup c'.slots conns 0 = some t ∧
    t.conn.outBuf.contents = tunnel.conn.outBuf.contents ++ stream events

theorem withOutput_buffer (hnd : (c.slots.map Slot.ref).Nodup) (hs : s ∈ c.slots) :
    c.withOutput s.ref s.conn.outBuf.buffer = c := by
  refine congrArg c.setSlots (modifyConn_of_forall fun t ht href => ?_)
  rw [eq_of_ref_eq hnd ht hs href]
  rfl

/-- It holds after the transfer from the endpoint as it is. -/
theorem AlwaysTransfers.transfers (h : AlwaysTransfers env conns tunnel c P)
    (hnd : (c.slots.map Slot.ref).Nodup) (ht : lookup c.slots conns 0 = some tunnel) :
    ∃ c', pumpTransfer (onCommand env.connect) env conns c = .ok c' ∧ P c' := by
  have hself := h _ (holds_buffer tunnel.conn.outBuf)
  rwa [withOutput_buffer hnd (lookup_eq_some ht).1] at hself

theorem AlwaysTransfers.mono {Q : Controller → Prop} (h : AlwaysTransfers env conns tunnel c P)
    (hPQ : ∀ c', P c' → Q c') : AlwaysTransfers env conns tunnel c Q := fun mem hmem =>
  (h mem hmem).imp fun c' hc' => ⟨hc'.1, hPQ c' hc'.2⟩

/-- The endpoint `d` is in the state `c`, in which sending starts, up to the array `mem` in the
output of the tunnel, which is that of `tunnel`. -/
structure SendsFrom (conns : Conns) (tunnel : Slot) (mem : ℕ → UInt8) (c d : Controller) :
    Prop where
  ready : PumpReady conns d
  pump : d.pump = c.pump
  others : ∀ i ≠ 0, lookup d.slots conns i = lookup c.slots conns i
  output : ∃ t, lookup d.slots conns 0 = some t ∧
    t.conn.outBuf = tunnel.conn.outBuf.withArray mem

/-- The transfer with other bytes in the output of the tunnel receives the same. -/
theorem pumpTransfer_unseen (h : PumpReady conns c) (ht : lookup c.slots conns 0 = some tunnel)
    (hrecv : recvFromTunnel (onCommand env.connect) env conns c = .ok c₁) (mem : ℕ → UInt8) :
    ∃ d, pumpTransfer (onCommand env.connect) env conns (c.withOutput tunnel.ref mem) =
        .ok (sendToTunnel conns d) ∧ SendsFrom conns tunnel mem c₁ d := by
  obtain ⟨d, hd, hunseen⟩ := recvFromTunnel_unseen (unseen_withOutput c tunnel.ref mem) h ht hrecv
  have hready : PumpReady conns (c.withOutput tunnel.ref mem) := h.modify _ fun _ _ _ => rfl
  obtain ⟨hreceipt, hready₁⟩ := recvFromTunnel_receipt h hrecv
  obtain ⟨t₁, ht₁, hstep⟩ := hreceipt.lookup ht
  have hunseen₁ : Unseen t₁.ref mem c₁ d := hstep.ref ▸ hunseen
  refine ⟨d, by rw [pumpTransfer_eq, hd]; rfl, (recvFromTunnel_receipt hready hd).2, hunseen.pump,
    fun i hi => ?_, _, lookup_unseen_self hunseen₁ ht₁, ?_⟩
  · cases hs : lookup c₁.slots conns i with
    | none => rw [lookup_unseen hunseen, hs, Option.map_none]
    | some s =>
      exact lookup_unseen_of_ne hunseen₁ hs (hready₁.entries.ref_ne hready₁.nodup hs ht₁ hi)
  · exact congrArg (RoundBuffer.withArray · mem)
      (hstep.output (h.entries.tunnel_id h.nodup ht))

/-- What is to be sent does not depend on these bytes. -/
theorem SendsFrom.events (h : SendsFrom conns tunnel mem c d) (room : ℕ) :
    pendingInputs conns d = pendingInputs conns c ∧
      eventsToSend conns room d = eventsToSend conns room c := by
  have hpending : pendingInputs conns d = pendingInputs conns c := by
    unfold pendingInputs
    rw [h.pump]
    refine List.filterMap_congr fun j hj => pendingAt_eq_of_lookup (h.others j ?_)
    have := (mem_visitOrder.mp hj).1
    omega
  refine ⟨hpending, ?_⟩
  unfold eventsToSend
  rw [h.pump, hpending]

/-- **One transfer**, whatever bytes are in the output of the tunnel. -/
theorem pumpTransfer_output (h : PumpReady conns c) (ht : lookup c.slots conns 0 = some tunnel)
    (hrecv : recvFromTunnel (onCommand env.connect) env conns c = .ok c₁) (mem : ℕ → UInt8) :
    ∃ c', pumpTransfer (onCommand env.connect) env conns (c.withOutput tunnel.ref mem) = .ok c' ∧
      c'.pump.cmdQueue.contents =
        c₁.pump.cmdQueue.contents.drop (bufFreeLength tunnel.conn.outBuf / 5 + 1) ∧
      ∃ t, lookup c'.slots conns 0 = some t ∧
        t.conn.outBuf = (tunnel.conn.outBuf.withArray mem).putAll
          ((eventsToSend conns (bufFreeLength tunnel.conn.outBuf) c₁).map TunnelEvent.frame) := by
  obtain ⟨d, hc, hd⟩ := pumpTransfer_unseen h ht hrecv mem
  obtain ⟨t, ht', hbuf⟩ := hd.output
  obtain ⟨hqueue, t', ht'', hout⟩ := sendToTunnel_output hd.ready.nodup hd.ready.entries ht'
  rw [hbuf, (hd.events _).2] at hout
  rw [hbuf, hd.pump] at hqueue
  exact ⟨_, hc, hqueue, t', ht'', hout⟩

/-- Frames in line come behind the unread bytes. -/
theorem alwaysTransfers_of_inLine (h : PumpReady conns c)
    (ht : lookup c.slots conns 0 = some tunnel)
    (hrecv : recvFromTunnel (onCommand env.connect) env conns c = .ok c₁)
    (hline : tunnel.conn.outBuf.InLine
      ((eventsToSend conns (bufFreeLength tunnel.conn.outBuf) c₁).map TunnelEvent.frame)) :
    AlwaysTransfers env conns tunnel c fun c' =>
      c'.pump.cmdQueue.contents =
          c₁.pump.cmdQueue.contents.drop (bufFreeLength tunnel.conn.outBuf / 5 + 1) ∧
        TunnelGets conns tunnel (eventsToSend conns (bufFreeLength tunnel.conn.outBuf) c₁) c' := by
  intro mem hmem
  obtain ⟨c', hc, hqueue, t, ht', hout⟩ := pumpTransfer_output h ht hrecv mem
  have hline' : (tunnel.conn.outBuf.withArray mem).InLine _ := hline
  refine ⟨c', hc, hqueue, t, ht', ?_⟩
  rw [hout, contents_putAll hline' (length_eventsToSend conns _ c₁), contents_withArray hmem,
    stream_eq_flatten]

/-- **Frames that are always whole in the tunnel are in line.** Otherwise the last byte is one that
happened to be in the array. -/
theorem inLine_of_gets (h : PumpReady conns c) (ht : lookup c.slots conns 0 = some tunnel)
    (hrecv : recvFromTunnel (onCommand env.connect) env conns c = .ok c₁)
    (hgets : AlwaysTransfers env conns tunnel c fun c' =>
      ∃ events, TunnelGets conns tunnel events c') :
    tunnel.conn.outBuf.InLine
      ((eventsToSend conns (bufFreeLength tunnel.conn.outBuf) c₁).map TunnelEvent.frame) := by
  by_contra hline
  have hroom := length_eventsToSend conns (bufFreeLength tunnel.conn.outBuf) c₁
  have hne : ∀ bs ∈ (eventsToSend conns (bufFreeLength tunnel.conn.outBuf) c₁).map
      TunnelEvent.frame, bs ≠ [] := by
    intro bs hbs hnil
    obtain ⟨e, -, rfl⟩ := List.mem_map.mp hbs
    have := length_frame e
    rw [hnil] at this
    exact absurd this (by decide)
  obtain ⟨mem, hmem, hlast⟩ := exists_getLast?_putAll hline hne hroom (endByte + 1)
  obtain ⟨c', hc, -, t, ht', hout⟩ := pumpTransfer_output h ht hrecv mem
  obtain ⟨c'', hc'', events, t'', ht'', hcontents⟩ := hgets mem hmem
  obtain rfl := Except.ok.inj (hc''.symm.trans hc)
  obtain rfl := Option.some.inj (ht''.symm.trans ht')
  rw [← hout, hcontents] at hlast
  have hevents : events ≠ [] := by
    rintro rfl
    have hpos := (buffer_putAll_last hline hne hroom).1
    have hroom' : _ ≤ bufFreeLength (tunnel.conn.outBuf.withArray mem) := hroom
    have hlen := congrArg List.length hcontents
    rw [hout, RoundBuffer.length_contents, (length_putAll hroom').1, stream, List.flatMap_nil,
      List.append_nil, RoundBuffer.length_contents] at hlen
    change tunnel.conn.outBuf.length + _ = _ at hlen
    omega
  rw [List.getLast?_append, getLast?_stream hevents, Option.some_or, Option.some_inj] at hlast
  exact absurd hlast (by decide)

end OsTasks.PortForwarding
