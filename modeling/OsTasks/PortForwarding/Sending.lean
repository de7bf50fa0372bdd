import OsTasks.PortForwarding.FrameBytes
import OsTasks.PortForwarding.Updates

/-!
# What `pump_transfer` puts into the tunnel

After receiving, `pump_transfer` sends the queued commands and the inputs of the connections. Only
the output of the tunnel grows, and something is in it afterwards if there was something to send.

## Main definitions

* `SlotsSent`: the slots after bytes have gone into the tunnel.
* `TunnelPending`: there are bytes in the output of the tunnel.
* `sendToTunnel`: the part of `pump_transfer` after receiving.

## Main results

* `sendToTunnel_sent`: bytes go into the tunnel only.
* `sendToTunnel_induction`: what the steps of sending keep, sending keeps.
* `sendToTunnel_pending`: a queued command, or an unread input, fills the output of the tunnel.
-/

namespace OsTasks.PortForwarding

/-! ### Bytes that go into the tunnel -/

/-- A slot after bytes have gone into the tunnel, which has the id `0`. -/
structure SentStep (s s' : Slot) : Prop extends BufferStep s s' where
  tunnelIn : s.conn.id = 0 → s'.conn.inBuf = s.conn.inBuf
  output : s.conn.id ≠ 0 → s'.conn.outBuf = s.conn.outBuf

theorem SentStep.refl (s : Slot) : SentStep s s := ⟨.refl s, fun _ => rfl, fun _ => rfl⟩

theorem SentStep.trans {s t u : Slot} (h : SentStep s t) (h' : SentStep t u) : SentStep s u where
  toBufferStep := h.toBufferStep.trans h'.toBufferStep
  tunnelIn hid := (h'.tunnelIn (h.id ▸ hid)).trans (h.tunnelIn hid)
  output hid := (h'.output (h.id ▸ hid)).trans (h.output hid)

/-- The slots after bytes have gone into the tunnel. -/
def SlotsSent (slots slots' : List Slot) : Prop :=
  ∃ g : Slot → Slot, slots' = slots.map g ∧ ∀ s ∈ slots, SentStep s (g s)

theorem SlotsSent.refl (slots : List Slot) : SlotsSent slots slots :=
  ⟨fun s => s, (List.map_id _).symm, fun s _ => .refl s⟩

theorem SlotsSent.trans {l₁ l₂ l₃ : List Slot} (h : SlotsSent l₁ l₂) (h' : SlotsSent l₂ l₃) :
    SlotsSent l₁ l₃ := by
  obtain ⟨g, rfl, hg⟩ := h
  obtain ⟨g', rfl, hg'⟩ := h'
  exact ⟨g' ∘ g, List.map_map, fun s hs => (hg s hs).trans (hg' _ (List.mem_map_of_mem hs))⟩

theorem SlotsSent.map_ref {l l' : List Slot} (h : SlotsSent l l') :
    l'.map Slot.ref = l.map Slot.ref := by
  obtain ⟨g, rfl, hg⟩ := h
  rw [List.map_map]
  exact List.map_congr_left fun s hs => (hg s hs).ref

theorem SlotsSent.entriesAt {conns : Conns} {l l' : List Slot} (h : SlotsSent l l')
    (hentries : EntriesAt conns l) : EntriesAt conns l' := by
  obtain ⟨g, rfl, hg⟩ := h
  exact hentries.map fun s hs => ⟨(hg s hs).ref, (hg s hs).id⟩

/-- What a pointer points to is sent from, or sent to. -/
theorem SlotsSent.lookup {conns : Conns} {l l' : List Slot} (h : SlotsSent l l')
    (hnd : (l.map Slot.ref).Nodup) {i : ℕ} {s : Slot} (hs : lookup l conns i = some s) :
    ∃ s', PortForwarding.lookup l' conns i = some s' ∧ SentStep s s' := by
  have href := h.map_ref
  obtain ⟨g, rfl, hg⟩ := h
  obtain ⟨hmem, hconns⟩ := lookup_eq_some hs
  have hsent := hg s hmem
  exact ⟨g s, lookup_of_mem (href ▸ hnd) (List.mem_map_of_mem hmem)
    (hconns.trans (congrArg some hsent.ref.symm)), hsent⟩

/-- A change of the buffers of one object in the list. -/
theorem slotsSent_modifyConn {slots : List Slot} (hnd : (slots.map Slot.ref).Nodup) {s : Slot}
    (hs : s ∈ slots) {f : Connection → Connection} (hf : SentStep s { s with conn := f s.conn }) :
    SlotsSent slots (modifyConn slots s.ref f) := by
  refine ⟨modifySlot s.ref f, modifyConn_eq_map slots s.ref f, fun t ht => ?_⟩
  exact modifySlot_rel hnd hs (P := SentStep) hf (fun t _ _ => .refl t) ht

/-- A change that gives an object what it has. -/
theorem modifyConn_of_forall {slots : List Slot} {ref : ℕ} {f : Connection → Connection}
    (h : ∀ s ∈ slots, s.ref = ref → f s.conn = s.conn) : modifyConn slots ref f = slots := by
  refine (List.map_congr_left fun s hs => ?_).trans (List.map_id _)
  change (if s.ref = ref then { s with conn := f s.conn } else s) = s
  split_ifs with href
  · rw [h s hs href]
  · rfl

/-! ### What fills the output of the tunnel -/

theorem length_encodeCommand_ne_zero {buf : RoundBuffer} (hcap : 5 ≤ buf.capacity)
    (cmd arg : UInt8) :
    (encodeCommand buf cmd arg).2.length ≠ 0 := by
  have hlen := buf.length_le
  unfold encodeCommand bufFreeLength
  split_ifs
  · dsimp only
    omega
  · dsimp only
    rw [length_bufAdvanceWritePtr]
    dsimp only
    omega

theorem encode_of_empty {src : RoundBuffer} (h : src.length = 0) (dst : RoundBuffer) (id : UInt8) :
    encode src dst id = (true, src, dst) := by
  unfold encode bufDataLength
  exact if_pos h

/-- Encoding takes bytes from the source. -/
theorem length_encode_le (src dst : RoundBuffer) (id : UInt8) :
    (encode src dst id).2.1.length ≤ src.length := by
  unfold encode
  dsimp only
  split_ifs
  · exact Nat.le_refl _
  · exact Nat.le_refl _
  · exact (length_bufAdvanceReadPtr _ _).trans_le (Nat.sub_le _ _)

theorem capacity_encode (src dst : RoundBuffer) (id : UInt8) :
    (encode src dst id).2.1.capacity = src.capacity := by
  unfold encode
  dsimp only
  split_ifs
  · rfl
  · rfl
  · exact capacity_bufAdvanceReadPtr _ _

theorem length_encode_ne_zero {src dst : RoundBuffer} (hsrc : src.length ≠ 0)
    (hcap : 5 ≤ dst.capacity) (id : UInt8) : (encode src dst id).2.2.length ≠ 0 := by
  have hlen := dst.length_le
  unfold encode bufDataLength
  rw [if_neg hsrc]
  dsimp only
  split_ifs with hfew
  · dsimp only
    unfold bufFreeLength at hfew
    omega
  · dsimp only
    rw [length_bufAdvanceWritePtr]
    simp only [WriteState.total_push]
    omega

/-- There are bytes in the output of the tunnel. -/
def TunnelPending (conns : Conns) (slots : List Slot) : Prop :=
  ∃ tunnel, lookup slots conns 0 = some tunnel ∧ tunnel.conn.outBuf.length ≠ 0

theorem TunnelPending.sent {conns : Conns} {l l' : List Slot} (h : TunnelPending conns l)
    (hnd : (l.map Slot.ref).Nodup) (hsent : SlotsSent l l') : TunnelPending conns l' := by
  obtain ⟨tunnel, htunnel, hne⟩ := h
  obtain ⟨tunnel', htunnel', hstep⟩ := hsent.lookup hnd htunnel
  have := hstep.outBuf
  exact ⟨tunnel', htunnel', by omega⟩

variable {conns : Conns} {c : Controller}

/-! ### The queue -/

/-- Sending the queued commands fills the output of the tunnel only. -/
theorem drainCommands_sent (n : ℕ) (hnd : (c.slots.map Slot.ref).Nodup)
    (hentries : EntriesAt conns c.slots) :
    SlotsSent c.slots (drainCommands conns n c).2.slots ∧
      (drainCommands conns n c).2.pump.sendingTo = c.pump.sendingTo := by
  induction n generalizing c with
  | zero => exact ⟨.refl _, rfl⟩
  | succ n ih =>
    unfold drainCommands
    by_cases hlen : cmdqLength c.pump.cmdQueue = 0
    · rw [if_pos hlen]
      exact ⟨.refl _, rfl⟩
    rw [if_neg hlen]
    dsimp only
    split
    · exact ⟨.refl _, rfl⟩
    rename_i tunnel htunnel
    split
    · have hid := hentries.tunnel_id hnd htunnel
      have hsent : SlotsSent c.slots (modifyConn c.slots tunnel.ref fun conn =>
          { conn with
            outBuf := (encodeCommand tunnel.conn.outBuf (cmdqDequeue c.pump.cmdQueue).1.cmd
              (cmdqDequeue c.pump.cmdQueue).1.arg).2 }) :=
        slotsSent_modifyConn hnd (lookup_eq_some htunnel).1
          ⟨⟨rfl, rfl, rfl, rfl, rfl, rfl, rfl, rfl, length_encodeCommand ..⟩, fun _ => rfl,
            fun hne => absurd hid hne⟩
      obtain ⟨hrest, hsend⟩ := ih
        (c := ((c.setQueue (cmdqDequeue c.pump.cmdQueue).2).modify tunnel.ref fun conn =>
          { conn with
            outBuf := (encodeCommand tunnel.conn.outBuf (cmdqDequeue c.pump.cmdQueue).1.cmd
              (cmdqDequeue c.pump.cmdQueue).1.arg).2 }).note
            (.sent (cmdqDequeue c.pump.cmdQueue).1))
        (hsent.map_ref ▸ hnd) (hsent.entriesAt hentries)
      exact ⟨hsent.trans hrest, hsend⟩
    · exact ⟨.refl _, rfl⟩

/-- A queued command is sent, or there is no room for it because of other bytes. -/
theorem drainCommands_pending (hnd : (c.slots.map Slot.ref).Nodup)
    (hentries : EntriesAt conns c.slots)
    {tunnel : Slot} (htunnel : lookup c.slots conns 0 = some tunnel)
    (hcap : 5 ≤ tunnel.conn.outBuf.capacity) (hqueue : cmdqLength c.pump.cmdQueue ≠ 0) :
    TunnelPending conns (drainCommands conns (cmdqLength c.pump.cmdQueue) c).2.slots := by
  obtain ⟨n, hn⟩ := Nat.exists_eq_succ_of_ne_zero hqueue
  have hpending := length_encodeCommand_ne_zero hcap (cmdqDequeue c.pump.cmdQueue).1.cmd
    (cmdqDequeue c.pump.cmdQueue).1.arg
  rw [hn]
  unfold drainCommands
  rw [if_neg hqueue]
  have htunnel' : lookup (c.setQueue (cmdqDequeue c.pump.cmdQueue).2).slots conns 0 = some tunnel :=
    htunnel
  simp only [htunnel']
  split
  · have hid := hentries.tunnel_id hnd htunnel
    have hmem := (lookup_eq_some htunnel).1
    let f : Connection → Connection := fun conn =>
      { conn with outBuf := (encodeCommand tunnel.conn.outBuf (cmdqDequeue c.pump.cmdQueue).1.cmd
        (cmdqDequeue c.pump.cmdQueue).1.arg).2 }
    have hsent : SlotsSent c.slots (modifyConn c.slots tunnel.ref f) :=
      slotsSent_modifyConn hnd hmem ⟨⟨rfl, rfl, rfl, rfl, rfl, rfl, rfl, rfl,
        length_encodeCommand ..⟩, fun _ => rfl, fun hne => absurd hid hne⟩
    have hnow : TunnelPending conns (modifyConn c.slots tunnel.ref f) :=
      ⟨{ tunnel with conn := f tunnel.conn }, lookup_of_mem (hsent.map_ref ▸ hnd)
        (mem_modifyConn hnd hmem f) (lookup_eq_some htunnel).2, hpending⟩
    exact hnow.sent (hsent.map_ref ▸ hnd) (drainCommands_sent (c := ((c.setQueue
      (cmdqDequeue c.pump.cmdQueue).2).modify tunnel.ref f).note (.sent (cmdqDequeue
        c.pump.cmdQueue).1)) n (hsent.map_ref ▸ hnd) (hsent.entriesAt hentries)).1
  · rename_i hfull
    refine ⟨tunnel, htunnel, fun hzero => hfull ?_⟩
    unfold encodeCommand bufFreeLength
    rw [if_neg (by omega)]

/-! ### The inputs of the connections -/

/-- The state after the input of `s` has been encoded. -/
def Controller.encodeTo (c : Controller) (s tunnel : Slot) : Controller :=
  let r := encode s.conn.inBuf tunnel.conn.outBuf (toByte s.conn.id)
  let c := c.modify s.ref fun conn => { conn with inBuf := r.2.1 }
  let c := c.modify tunnel.ref fun conn => { conn with outBuf := r.2.2 }
  let bytes := s.conn.inBuf.contents.take (s.conn.inBuf.length - r.2.1.length)
  if bufEmpty s.conn.inBuf then c else c.note (.encoded s bytes)

theorem slots_encodeTo (s tunnel : Slot) : (c.encodeTo s tunnel).slots =
    modifyConn (modifyConn c.slots s.ref fun conn => { conn with inBuf :=
        (encode s.conn.inBuf tunnel.conn.outBuf (toByte s.conn.id)).2.1 }) tunnel.ref
      fun conn => { conn with outBuf :=
        (encode s.conn.inBuf tunnel.conn.outBuf (toByte s.conn.id)).2.2 } := by
  unfold Controller.encodeTo
  dsimp only
  split <;> rfl

theorem trace_encodeTo (c : Controller) (s tunnel : Slot) : (c.encodeTo s tunnel).trace =
    if bufEmpty s.conn.inBuf then c.trace
    else .encoded s (s.conn.inBuf.contents.take (s.conn.inBuf.length -
      (encode s.conn.inBuf tunnel.conn.outBuf (toByte s.conn.id)).2.1.length)) :: c.trace := by
  unfold Controller.encodeTo
  dsimp only
  split <;> rfl

theorem sendingTo_encodeTo (s tunnel : Slot) :
    (c.encodeTo s tunnel).pump.sendingTo = c.pump.sendingTo := by
  unfold Controller.encodeTo
  dsimp only
  split <;> rfl

/-- Encoding the input of one connection fills the output of the tunnel only. -/
theorem encodeTo_sent (hnd : (c.slots.map Slot.ref).Nodup) (hentries : EntriesAt conns c.slots)
    {i : ℕ} {s tunnel : Slot} (hs : lookup c.slots conns (i + 1) = some s)
    (htunnel : lookup c.slots conns 0 = some tunnel) :
    SlotsSent c.slots (c.encodeTo s tunnel).slots ∧
      lookup (c.encodeTo s tunnel).slots conns 0 = some { tunnel with conn := { tunnel.conn with
        outBuf := (encode s.conn.inBuf tunnel.conn.outBuf (toByte s.conn.id)).2.2 } } := by
  have hid := hentries.tunnel_id hnd htunnel
  have hsid := hentries.id hnd hs
  obtain ⟨hmem, hconns⟩ := lookup_eq_some htunnel
  have hne : tunnel.ref ≠ s.ref := by
    intro href
    rw [← eq_of_ref_eq hnd hmem (lookup_eq_some hs).1 href, hid] at hsid
    omega
  let r := encode s.conn.inBuf tunnel.conn.outBuf (toByte s.conn.id)
  have h₁ : SlotsSent c.slots (modifyConn c.slots s.ref fun conn => { conn with inBuf := r.2.1 }) :=
    slotsSent_modifyConn hnd (lookup_eq_some hs).1 ⟨⟨rfl, rfl, rfl, rfl, rfl, rfl, rfl, rfl,
      Nat.le_refl _⟩, fun hzero => absurd (hsid.symm.trans hzero) (by omega), fun _ => rfl⟩
  have hnd₁ := h₁.map_ref ▸ hnd
  have hmem₁ : tunnel ∈ modifyConn c.slots s.ref fun conn => { conn with inBuf := r.2.1 } :=
    List.mem_map.mpr ⟨tunnel, hmem, if_neg hne⟩
  have h₂ := slotsSent_modifyConn hnd₁ hmem₁ (f := fun conn => { conn with outBuf := r.2.2 })
    ⟨⟨rfl, rfl, rfl, rfl, rfl, rfl, rfl, rfl, length_encode ..⟩, fun _ => rfl,
      fun hne => absurd hid hne⟩
  rw [slots_encodeTo]
  exact ⟨h₁.trans h₂, lookup_of_mem (h₂.map_ref ▸ hnd₁)
    (mem_modifyConn hnd₁ hmem₁ fun conn => { conn with outBuf := r.2.2 }) hconns⟩

/-- One turn of the loop over the connections. -/
theorem encodeConnections_cons (index i : ℕ) (is : List ℕ) {s tunnel : Slot}
    (hs : lookup c.slots conns ((index + i) % 255 + 1) = some s)
    (htunnel : lookup c.slots conns 0 = some tunnel) :
    encodeConnections conns index (i :: is) c =
      if !isAlive s.conn.state || !isAlive s.conn.inState then encodeConnections conns index is c
      else if (encode s.conn.inBuf tunnel.conn.outBuf (toByte s.conn.id)).1 then
        encodeConnections conns index is (c.encodeTo s tunnel)
      else { c with pump := { c.pump with currentIndex := (index + i) % 255 + 1 } } := by
  rw [encodeConnections, hs, htunnel]
  rfl

/-- Encoding adds to the trace. -/
theorem encodeConnections_trace (conns : Conns) (index : ℕ) (is : List ℕ) (c : Controller) :
    c.trace <:+ (encodeConnections conns index is c).trace := by
  induction is generalizing c with
  | nil => exact List.suffix_refl _
  | cons i is ih =>
    cases ht : lookup c.slots conns ((index + i) % 255 + 1) with
    | none =>
      rw [encodeConnections, ht]
      exact ih c
    | some t =>
      cases htunnel : lookup c.slots conns 0 with
      | none =>
        rw [encodeConnections, ht, htunnel]
        exact ih c
      | some tunnel =>
        have hencode : c.trace <:+ (c.encodeTo t tunnel).trace := by
          rw [trace_encodeTo]
          split_ifs
          · exact List.suffix_refl _
          · exact List.suffix_cons _ _
        rw [encodeConnections_cons index i is ht htunnel]
        split_ifs
        · exact ih c
        · exact hencode.trans (ih _)
        · exact List.suffix_refl _

/-- Encoding the inputs of the connections fills the output of the tunnel only. -/
theorem encodeConnections_sent (index : ℕ) (is : List ℕ) (hnd : (c.slots.map Slot.ref).Nodup)
    (hentries : EntriesAt conns c.slots) :
    SlotsSent c.slots (encodeConnections conns index is c).slots ∧
      (encodeConnections conns index is c).pump.sendingTo = c.pump.sendingTo := by
  induction is generalizing c with
  | nil => exact ⟨.refl _, rfl⟩
  | cons i is ih =>
    cases hs : lookup c.slots conns ((index + i) % 255 + 1) with
    | none =>
      rw [encodeConnections, hs]
      exact ih hnd hentries
    | some s =>
      cases htunnel : lookup c.slots conns 0 with
      | none =>
        rw [encodeConnections, hs, htunnel]
        exact ih hnd hentries
      | some tunnel =>
        rw [encodeConnections_cons index i is hs htunnel]
        split_ifs
        · exact ih hnd hentries
        · have hsent := (encodeTo_sent hnd hentries hs htunnel).1
          obtain ⟨hrest, hsend⟩ := ih (hsent.map_ref ▸ hnd) (hsent.entriesAt hentries)
          exact ⟨hsent.trans hrest, hsend.trans (sendingTo_encodeTo s tunnel)⟩
        · exact ⟨.refl _, rfl⟩

/-- Encoding an empty input changes no connection. -/
theorem slots_encodeTo_of_empty (hnd : (c.slots.map Slot.ref).Nodup) {s tunnel : Slot}
    (hs : s ∈ c.slots) (htunnel : tunnel ∈ c.slots) (hempty : s.conn.inBuf.length = 0) :
    (c.encodeTo s tunnel).slots = c.slots := by
  have hsame₁ : modifyConn c.slots s.ref (fun conn => { conn with inBuf := s.conn.inBuf }) =
      c.slots := modifyConn_of_forall fun t ht href => by rw [eq_of_ref_eq hnd ht hs href]
  have hsame₂ : modifyConn c.slots tunnel.ref (fun conn =>
    { conn with outBuf := tunnel.conn.outBuf }) =
      c.slots := modifyConn_of_forall fun t ht href => by rw [eq_of_ref_eq hnd ht htunnel href]
  rw [slots_encodeTo, encode_of_empty hempty]
  exact (congrArg (fun l => modifyConn l tunnel.ref _) hsame₁).trans hsame₂

/-- **An unread input is sent**, or there is no room for it because of other bytes. -/
theorem encodeConnections_pending (index : ℕ) {is : List ℕ} (hnd : (c.slots.map Slot.ref).Nodup)
    (hentries : EntriesAt conns c.slots) {s tunnel : Slot} {j : ℕ} (hj : j ∈ is)
    (hs : lookup c.slots conns ((index + j) % 255 + 1) = some s)
    (hstate : isAlive s.conn.state = true) (hin : isAlive s.conn.inState = true)
    (hunread : s.conn.inBuf.length ≠ 0) (htunnel : lookup c.slots conns 0 = some tunnel)
    (hcap : 5 ≤ tunnel.conn.outBuf.capacity) :
    TunnelPending conns (encodeConnections conns index is c).slots := by
  induction is generalizing c with
  | nil => exact absurd hj List.not_mem_nil
  | cons i is ih =>
    cases hi : lookup c.slots conns ((index + i) % 255 + 1) with
    | none =>
      have hji : j ≠ i := by
        rintro rfl
        exact Option.some_ne_none s (hs.symm.trans hi)
      rw [encodeConnections, hi]
      exact ih hnd hentries (List.mem_of_ne_of_mem hji hj) hs htunnel
    | some u =>
      rw [encodeConnections_cons index i is hi htunnel]
      split_ifs with hdead hfits
      · have hji : j ≠ i := by
          rintro rfl
          obtain rfl := Option.some.inj (hs.symm.trans hi)
          rw [hstate, hin] at hdead
          exact absurd hdead (by decide)
        exact ih hnd hentries (List.mem_of_ne_of_mem hji hj) hs htunnel
      · by_cases hempty : u.conn.inBuf.length = 0
        · have hji : j ≠ i := by
            rintro rfl
            obtain rfl := Option.some.inj (hs.symm.trans hi)
            exact hunread hempty
          have hsame := slots_encodeTo_of_empty hnd (lookup_eq_some hi).1 (lookup_eq_some htunnel).1
            hempty
          exact ih (hsame.symm ▸ hnd) (hsame.symm ▸ hentries) (List.mem_of_ne_of_mem hji hj)
            (hsame.symm ▸ hs) (hsame.symm ▸ htunnel)
        · obtain ⟨hsent, hnow⟩ := encodeTo_sent hnd hentries hi htunnel
          have hnd' := hsent.map_ref ▸ hnd
          have hpending : TunnelPending conns (c.encodeTo u tunnel).slots :=
            ⟨_, hnow, length_encode_ne_zero hempty hcap _⟩
          exact hpending.sent hnd' (encodeConnections_sent index is hnd'
            (hsent.entriesAt hentries)).1
      · refine ⟨tunnel, htunnel, fun hzero => hfits ?_⟩
        unfold encode bufDataLength
        split_ifs with hempty
        · rfl
        · dsimp only
          unfold bufFreeLength
          rw [if_neg (by omega)]

/-! ### After receiving -/

/-- The rest of `pump_transfer`, after the tunnel has been read. -/
def sendToTunnel (conns : Conns) (c : Controller) : Controller :=
  let r := drainCommands conns (cmdqLength c.pump.cmdQueue) c
  if r.1 then
    encodeConnections conns r.2.pump.currentIndex (List.range (maxConnections - 1)) r.2
  else r.2

/-- Once all commands are sent, the connections are encoded. -/
theorem sendToTunnel_of_sent {c' : Controller}
    (h : drainCommands conns (cmdqLength c.pump.cmdQueue) c = (true, c')) :
    sendToTunnel conns c =
      encodeConnections conns c'.pump.currentIndex (List.range (maxConnections - 1)) c' := by
  unfold sendToTunnel
  rw [h]
  rfl

/-- Otherwise nothing more is sent. -/
theorem sendToTunnel_of_stopped {c' : Controller}
    (h : drainCommands conns (cmdqLength c.pump.cmdQueue) c = (false, c')) :
    sendToTunnel conns c = c' := by
  unfold sendToTunnel
  rw [h]
  rfl

/-- What holds behind the commands, and behind the connections, holds in the end. -/
theorem sendToTunnel_of_drained {P : Controller → Prop}
    (hdrain : P (drainCommands conns (cmdqLength c.pump.cmdQueue) c).2)
    (hencode : P (encodeConnections conns
      (drainCommands conns (cmdqLength c.pump.cmdQueue) c).2.pump.currentIndex
      (List.range (maxConnections - 1)) (drainCommands conns (cmdqLength c.pump.cmdQueue) c).2)) :
    P (sendToTunnel conns c) := by
  unfold sendToTunnel
  dsimp only
  split_ifs
  · exact hencode
  · exact hdrain

theorem pumpTransfer_eq (handler : Controller → Command → Controller) (env : PumpEnv)
    (conns : Conns)
    (c : Controller) : pumpTransfer handler env conns c =
      (recvFromTunnel handler env conns c).map (sendToTunnel conns) := by
  unfold pumpTransfer
  cases recvFromTunnel handler env conns c with
  | error fault => rfl
  | ok c' =>
    change (if _ then Except.ok _ else Except.ok _) = Except.ok (sendToTunnel conns c')
    unfold sendToTunnel
    dsimp only
    split <;> rfl

/-- A transfer that returns receives and sends. -/
theorem exists_of_pumpTransfer {handler : Controller → Command → Controller} {env : PumpEnv}
    {c' : Controller} (hc : pumpTransfer handler env conns c = .ok c') :
    ∃ c₁, recvFromTunnel handler env conns c = .ok c₁ ∧ sendToTunnel conns c₁ = c' := by
  rw [pumpTransfer_eq] at hc
  cases hrecv : recvFromTunnel handler env conns c with
  | error fault =>
    rw [hrecv] at hc
    cases hc
  | ok c₁ =>
    rw [hrecv] at hc
    exact ⟨c₁, rfl, Except.ok.inj hc⟩

/-- The rest of `pump_transfer` fills the output of the tunnel only. -/
theorem sendToTunnel_sent (hnd : (c.slots.map Slot.ref).Nodup)
    (hentries : EntriesAt conns c.slots) :
    SlotsSent c.slots (sendToTunnel conns c).slots ∧
      (sendToTunnel conns c).pump.sendingTo = c.pump.sendingTo := by
  obtain ⟨hdrain, hsend⟩ := drainCommands_sent (cmdqLength c.pump.cmdQueue) hnd hentries
  obtain ⟨hencode, hsend'⟩ := encodeConnections_sent
    (drainCommands conns (cmdqLength c.pump.cmdQueue) c).2.pump.currentIndex
    (List.range (maxConnections - 1)) (hdrain.map_ref ▸ hnd) (hdrain.entriesAt hentries)
  exact sendToTunnel_of_drained
    (P := fun c' => SlotsSent c.slots c'.slots ∧ c'.pump.sendingTo = c.pump.sendingTo)
    ⟨hdrain, hsend⟩ ⟨hdrain.trans hencode, hsend'.trans hsend⟩

/-! ### An induction over sending -/

section Induction

variable {P : Controller → Prop}
  (hlost : ∀ {c : Controller}, cmdqLength c.pump.cmdQueue ≠ 0 → P c →
    P (c.setQueue (cmdqDequeue c.pump.cmdQueue).2))
  (hsend : ∀ {c : Controller} (tunnel : Slot), cmdqLength c.pump.cmdQueue ≠ 0 → P c →
    P (((c.setQueue (cmdqDequeue c.pump.cmdQueue).2).modify tunnel.ref fun conn =>
      { conn with
        outBuf := (encodeCommand tunnel.conn.outBuf (cmdqDequeue c.pump.cmdQueue).1.cmd
          (cmdqDequeue c.pump.cmdQueue).1.arg).2 }).note
        (.sent (cmdqDequeue c.pump.cmdQueue).1)))
  (hdrop : ∀ {c : Controller}, cmdqLength c.pump.cmdQueue ≠ 0 → P c →
    P ((c.setQueue (cmdqDequeue c.pump.cmdQueue).2).note
      (.dropped (cmdqDequeue c.pump.cmdQueue).1)))

include hlost hsend hdrop in
theorem drainCommands_induction (n : ℕ) (hP : P c) : P (drainCommands conns n c).2 := by
  induction n generalizing c with
  | zero => exact hP
  | succ n ih =>
    rw [drainCommands]
    split_ifs with hqueue
    · exact hP
    dsimp only
    split
    · exact hlost hqueue hP
    · rename_i tunnel _
      split_ifs
      · exact ih (hsend tunnel hqueue hP)
      · exact hdrop hqueue hP

variable (hencode : ∀ {c : Controller} {i : ℕ} {s tunnel : Slot}, (c.slots.map Slot.ref).Nodup →
    EntriesAt conns c.slots → i < 255 → lookup c.slots conns (i + 1) = some s →
      isAlive s.conn.state = true → isAlive s.conn.inState = true → P c → P (c.encodeTo s tunnel))
  (hindex : ∀ {c : Controller} (i : ℕ), P c →
    P { c with pump := { c.pump with currentIndex := i } })

include hencode hindex in
theorem encodeConnections_induction (index : ℕ) (is : List ℕ) (hnd : (c.slots.map Slot.ref).Nodup)
    (hentries : EntriesAt conns c.slots) (hP : P c) : P (encodeConnections conns index is c) := by
  induction is generalizing c with
  | nil => exact hP
  | cons i is ih =>
    cases hs : lookup c.slots conns ((index + i) % 255 + 1) with
    | none =>
      rw [encodeConnections, hs]
      exact ih hnd hentries hP
    | some s =>
      cases htunnel : lookup c.slots conns 0 with
      | none =>
        rw [encodeConnections, hs, htunnel]
        exact ih hnd hentries hP
      | some tunnel =>
        rw [encodeConnections_cons index i is hs htunnel]
        split_ifs with hdead
        · exact ih hnd hentries hP
        · rw [← Bool.not_and, Bool.not_eq_true', Bool.not_eq_false, Bool.and_eq_true] at hdead
          have hsent := (encodeTo_sent hnd hentries hs htunnel).1
          exact ih (hsent.map_ref ▸ hnd) (hsent.entriesAt hentries)
            (hencode hnd hentries (Nat.mod_lt _ (by omega)) hs hdead.1 hdead.2 hP)
        · exact hindex _ hP

include hlost hsend hdrop hencode hindex in
/-- **What the steps of sending keep, sending keeps.** -/
theorem sendToTunnel_induction (hnd : (c.slots.map Slot.ref).Nodup)
    (hentries : EntriesAt conns c.slots) (hP : P c) : P (sendToTunnel conns c) := by
  have hsent := (drainCommands_sent (cmdqLength c.pump.cmdQueue) hnd hentries).1
  have hdrain : P (drainCommands conns (cmdqLength c.pump.cmdQueue) c).2 :=
    drainCommands_induction hlost hsend hdrop _ hP
  exact sendToTunnel_of_drained hdrain (encodeConnections_induction hencode hindex _ _
    (hsent.map_ref ▸ hnd) (hsent.entriesAt hentries) hdrain)

end Induction

/-- **What there is to send is in the output of the tunnel afterwards**, or there was no room for it
because of other bytes. -/
theorem sendToTunnel_pending (hnd : (c.slots.map Slot.ref).Nodup)
    (hentries : EntriesAt conns c.slots)
    {tunnel : Slot} (htunnel : lookup c.slots conns 0 = some tunnel)
    (hcap : 5 ≤ tunnel.conn.outBuf.capacity)
    (hunsent : cmdqLength c.pump.cmdQueue ≠ 0 ∨ ∃ i < 255, ∃ s, lookup c.slots conns (i + 1) =
      some s ∧
      isAlive s.conn.state = true ∧ isAlive s.conn.inState = true ∧ s.conn.inBuf.length ≠ 0) :
    TunnelPending conns (sendToTunnel conns c).slots := by
  by_cases hqueue : cmdqLength c.pump.cmdQueue = 0
  · obtain ⟨i, hi, s, hs, hstate, hin, hunread⟩ := hunsent.resolve_left (not_not_intro hqueue)
    have hnone : drainCommands conns (cmdqLength c.pump.cmdQueue) c = (true, c) := by
      rw [hqueue]
      rfl
    rw [sendToTunnel_of_sent hnone]
    -- the turn in which the loop comes to connection `i + 1`
    let j := (i + 255 - c.pump.currentIndex % 255) % 255
    have hj : (c.pump.currentIndex + j) % 255 = i := by omega
    refine encodeConnections_pending c.pump.currentIndex hnd hentries (j := j) ?_ (hj ▸ hs)
      hstate hin
      hunread htunnel hcap
    rw [List.mem_range, maxConnections]
    omega
  · have hdrain := drainCommands_pending hnd hentries htunnel hcap hqueue
    have hsent := (drainCommands_sent (cmdqLength c.pump.cmdQueue) hnd hentries).1
    exact sendToTunnel_of_drained (P := fun c' => TunnelPending conns c'.slots) hdrain
      (hdrain.sent (hsent.map_ref ▸ hnd)
        (encodeConnections_sent _ _ (hsent.map_ref ▸ hnd) (hsent.entriesAt hentries)).1)

end OsTasks.PortForwarding
