import OsTasks.PortForwarding.SentFrames

/-!
# Bytes that are read before the end of the input

The loop over the connections skips a connection with a dead input, also when there are bytes in the
buffer. If there is room for all commands and all inputs, the bytes that stay behind are those of
the connections with a dead input. The other ones are in the tunnel, unless their frames come
behind unread bytes that run past the end of the array.

## Main definitions

* `unreadInputs`: the connections with unread input, in the order of the loop.
* `AllFramed`: all inputs are in the tunnel.

## Main results

* `encodeConnections_empties`: with enough room the loop empties the inputs that it does not skip.
* `all_framed_iff`: all inputs are in the tunnel exactly if no unread one is dead, and the frames
  are in line.
-/

namespace OsTasks.PortForwarding

variable {conns : Conns} {c c₁ c' : Controller} {s tunnel : Slot} {env : PumpEnv}

/-! ### The loop with enough room -/

/-- What the frame for all of the input of a connection carries. -/
def Slot.inputEvent (s : Slot) : TunnelEvent := .data (toByte s.conn.id) s.conn.inBuf.contents

/-- With room for all of them, the frames have all of the inputs. -/
theorem fittingEvents_of_room {room : ℕ} {inputs : List Slot}
    (hne : ∀ s ∈ inputs, s.conn.inBuf.length ≠ 0)
    (hroom : (stream (inputs.map Slot.inputEvent)).length ≤ room) :
    fittingEvents room inputs = inputs.map Slot.inputEvent := by
  induction inputs generalizing room with
  | nil => rfl
  | cons s rest ih =>
    obtain ⟨hs, hrest⟩ := List.forall_mem_cons.mp hne
    rw [List.map_cons, stream, List.flatMap_cons, List.length_append, ← stream] at hroom
    have hframe : (escaped s.conn.inBuf.contents).length + 3 ≤ room := by
      rw [← length_dataFrame (toByte s.conn.id)]
      exact (Nat.le_add_right _ _).trans hroom
    have hfit : fitting (room - 3) s.conn.inBuf.contents = s.conn.inBuf.contents :=
      fit_of_length_le (Nat.le_sub_of_add_le hframe)
    rw [fittingEvents, if_neg ?_, hfit]
    · refine congrArg (_ :: ·) (ih hrest ?_)
      exact Nat.le_sub_of_add_le' hroom
    · obtain ⟨b, bs, hbs⟩ := List.exists_cons_of_ne_nil
        (mt s.conn.inBuf.contents_eq_nil_iff.mp hs)
      rw [hbs, escaped, stuff] at hframe
      rw [hbs, List.head?_cons, Option.some_inj]
      rintro (hfew | ⟨rfl, hfew⟩)
      · split_ifs at hframe <;> simp only [List.length_cons] at hframe <;> omega
      · rw [if_pos (.inl rfl), List.length_cons, List.length_cons] at hframe
        omega

/-- A connection that the loop skips, or that has nothing unread, is left alone. -/
theorem lookup_encodeConnections_of_not_pending (index : ℕ) (is : List ℕ)
    (hnd : (c.slots.map Slot.ref).Nodup) (hentries : EntriesAt conns c.slots)
    (ht : lookup c.slots conns 0 = some tunnel) {j : ℕ} (hj : j ≠ 0)
    (hnone : pendingAt conns c j = none) :
    lookup (encodeConnections conns index is c).slots conns j = lookup c.slots conns j := by
  induction is generalizing c tunnel with
  | nil => rfl
  | cons i is ih =>
    rcases encodeConnections_turn index i is hnd ht with ⟨-, c', hsame, hturn⟩ | ⟨u, hu, hturn⟩
    · rw [hturn, ih (hsame.symm ▸ hnd) (hsame.symm ▸ hentries) (hsame.symm ▸ ht)
        ((pendingAt_congr hsame).symm ▸ hnone), hsame]
    rw [hturn]
    split_ifs
    · obtain ⟨hi, -⟩ := pendingAt_eq_some_iff.mp hu
      obtain ⟨hsent, htunnel⟩ := encodeTo_sent hnd hentries hi ht
      have hne : j ≠ (index + i) % 255 + 1 := by
        rintro rfl
        exact absurd (hu.symm.trans hnone) (Option.some_ne_none u)
      have hsame := lookup_encodeTo_of_ne hnd hentries hi ht hne hj
      rw [ih (hsent.map_ref ▸ hnd) (hsent.entriesAt hentries) htunnel
        ((pendingAt_eq_of_lookup hsame).trans hnone), hsame]
    · rfl

/-- **With enough room the loop empties the inputs that it does not skip.** -/
theorem encodeConnections_empties (index : ℕ) (is : List ℕ) (hnd : (c.slots.map Slot.ref).Nodup)
    (hentries : EntriesAt conns c.slots) (ht : lookup c.slots conns 0 = some tunnel)
    (hids : (is.map fun i => (index + i) % 255 + 1).Nodup)
    (hroom : (stream (((is.map fun i => (index + i) % 255 + 1).filterMap
      (pendingAt conns c)).map Slot.inputEvent)).length ≤ bufFreeLength tunnel.conn.outBuf)
    {j : ℕ} (hj : j ∈ is.map fun i => (index + i) % 255 + 1) (hs : pendingAt conns c j = some s) :
    ∃ s', lookup (encodeConnections conns index is c).slots conns j = some s' ∧
      s'.conn.inBuf.length = 0 ∧ s'.conn.inState = s.conn.inState := by
  induction is generalizing c tunnel with
  | nil => exact absurd hj List.not_mem_nil
  | cons i is ih =>
    rw [List.map_cons] at hids hroom hj
    obtain ⟨hnew, hids⟩ := List.nodup_cons.mp hids
    rcases encodeConnections_turn index i is hnd ht with ⟨hnone, c', hsame, hturn⟩ | ⟨u, hu, hturn⟩
    · rw [List.filterMap_cons_none hnone, ← pendingAt_congr hsame] at hroom
      rw [hturn]
      refine ih (hsame.symm ▸ hnd) (hsame.symm ▸ hentries) (hsame.symm ▸ ht) hids hroom
        ((List.mem_cons.mp hj).resolve_left ?_) ((pendingAt_congr hsame).symm ▸ hs)
      rintro rfl
      exact absurd (hs.symm.trans hnone) (Option.some_ne_none s)
    -- the whole input of the connection fits
    obtain ⟨hi, -, -, hne⟩ := pendingAt_eq_some_iff.mp hu
    obtain ⟨hsent, htunnel⟩ := encodeTo_sent hnd hentries hi ht
    rw [List.filterMap_cons_some hu, List.map_cons, stream, List.flatMap_cons, List.length_append,
      ← stream] at hroom
    have hframe : (dataFrame (toByte u.conn.id) u.conn.inBuf.contents).length ≤
      bufFreeLength tunnel.conn.outBuf := (Nat.le_add_right _ _).trans hroom
    have hencode := encode_of_room hne hframe
    have hself := lookup_encodeTo_self hnd hentries hi ht
    rw [hturn, if_pos (by rw [hencode])]
    rw [hencode] at hself htunnel
    rcases List.mem_cons.mp hj with rfl | hj
    · obtain rfl := Option.some.inj (hs.symm.trans hu)
      refine ⟨_, (lookup_encodeConnections_of_not_pending index is (hsent.map_ref ▸ hnd)
        (hsent.entriesAt hentries) htunnel (Nat.succ_ne_zero _) ?_).trans hself, ?_, rfl⟩
      · refine Option.eq_none_iff_forall_ne_some.mpr fun t ht' => ?_
        obtain ⟨hlookup, -, -, hunread⟩ := pendingAt_eq_some_iff.mp ht'
        obtain rfl := Option.some.inj (hself.symm.trans hlookup)
        exact hunread ((length_bufAdvanceReadPtr _ _).trans (Nat.sub_self _))
      · exact (length_bufAdvanceReadPtr _ _).trans (Nat.sub_self _)
    · refine ih (hsent.map_ref ▸ hnd) (hsent.entriesAt hentries) htunnel hids ?_ hj ?_
      · rw [filterMap_pendingAt_encodeTo hnd hentries hi ht hnew (zero_notMem_visited index is)]
        exact (Nat.le_sub_of_add_le' hroom).trans (bufFreeLength_put hframe).ge
      · refine (pendingAt_eq_of_lookup (lookup_encodeTo_of_ne hnd hentries hi ht
          (fun heq => hnew (heq ▸ hj)) ?_)).trans hs
        exact fun hzero => zero_notMem_visited index is (hzero ▸ hj)

/-! ### A transfer -/

/-- The connections with unread input, in the order of the loop. -/
def unreadInputs (conns : Conns) (c : Controller) : List Slot :=
  (visitOrder c.pump.currentIndex).filterMap fun j =>
    (lookup c.slots conns j).filter fun s => !bufEmpty s.conn.inBuf

/-- The frames that take all of the queue and of the inputs. -/
def allEvents (conns : Conns) (c : Controller) : List TunnelEvent :=
  c.pump.cmdQueue.contents.map Command.event ++ (unreadInputs conns c).map Slot.inputEvent

/-- The peer has not told to stop sending for any connection. -/
def NotTold (conns : Conns) (c : Controller) : Prop :=
  ∀ j, 1 ≤ j → j ≤ 255 → ∀ s, lookup c.slots conns j = some s →
    s.conn.state.delete = false ∧ s.conn.inState.delete = false

/-- What was queued and what had been read in `c` is in the tunnel: behind the unread bytes of its
output there are the frames of the commands and of all inputs. Every connection has an empty input,
and with a closed input `CMD_CLOSE_SRC_TO_DST` can be queued. -/
def AllFramed (conns : Conns) (tunnel : Slot) (c c' : Controller) : Prop :=
  TunnelGets conns tunnel (allEvents conns c) c' ∧
    ∀ j, 1 ≤ j → j ≤ 255 → ∀ s, lookup c.slots conns j = some s →
      ∃ s', lookup c'.slots conns j = some s' ∧ s'.conn.inBuf.length = 0 ∧
        (s.conn.inState.closed = true → shouldCloseIn s'.conn = true)

/-- A direction, or a connection, that has ended or is closed. -/
def hasEnded (state : ConnState) : Bool := state.eof || state.closed

theorem isAlive_iff_of_delete {state : ConnState} (h : state.delete = false) :
    isAlive state = true ↔ hasEnded state = false := by simp [hasEnded, h]

/-- A transfer that gets to the connections leaves a connection alone that the loop skips, or that
has nothing unread. -/
theorem lookup_sendToTunnel_of_not_pending (hready : PumpReady conns c)
    (ht : lookup c.slots conns 0 = some tunnel)
    (hfits : 5 * c.pump.cmdQueue.length ≤ bufFreeLength tunnel.conn.outBuf) {j : ℕ} (hj : j ≠ 0)
    (hnone : pendingAt conns c j = none) :
    lookup (sendToTunnel conns c).slots conns j = lookup c.slots conns j := by
  obtain ⟨e, he⟩ := exists_pastCommands hready.nodup hready.entries ht hfits
  obtain ⟨t, ht', -⟩ := he.output
  have hsame := he.drained.others j hj
  rw [he.transfer, lookup_encodeConnections_of_not_pending _ _ he.nodup he.entries ht' hj
    ((pendingAt_eq_of_lookup hsame).trans hnone)]
  exact hsame

/-- With room for all pending inputs, it empties them. -/
theorem sendToTunnel_empties (hready : PumpReady conns c)
    (ht : lookup c.slots conns 0 = some tunnel)
    (hfits : 5 * c.pump.cmdQueue.length ≤ bufFreeLength tunnel.conn.outBuf)
    (hroom : (stream ((pendingInputs conns c).map Slot.inputEvent)).length ≤
      bufFreeLength tunnel.conn.outBuf - 5 * c.pump.cmdQueue.length)
    {j : ℕ} (hj : 1 ≤ j ∧ j ≤ 255) (hs : pendingAt conns c j = some s) :
    ∃ s', lookup (sendToTunnel conns c).slots conns j = some s' ∧
      s'.conn.inBuf.length = 0 ∧ s'.conn.inState = s.conn.inState := by
  obtain ⟨e, he⟩ := exists_pastCommands hready.nodup hready.entries ht hfits
  obtain ⟨t, ht', hfree⟩ := he.output
  have hsame := he.drained.others j (by omega)
  rw [he.transfer]
  refine encodeConnections_empties _ _ he.nodup he.entries ht' (nodup_visitOrder _) ?_
    (mem_visitOrder.mpr hj) ((pendingAt_eq_of_lookup hsame).trans hs)
  rw [hfree, ← visitOrder, he.pending]
  exact hroom

/-- If nothing unread has ended, the unread inputs are the pending ones. -/
theorem unreadInputs_eq (htold : NotTold conns c)
    (hended : ∀ j, 1 ≤ j → j ≤ 255 → ∀ s, lookup c.slots conns j = some s →
      s.conn.inBuf.length ≠ 0 →
        hasEnded s.conn.state = false ∧ hasEnded s.conn.inState = false) :
    unreadInputs conns c = pendingInputs conns c := by
  refine List.filterMap_congr fun j hj => ?_
  obtain ⟨hpos, hle⟩ := mem_visitOrder.mp hj
  rw [pendingAt]
  cases hs : lookup c.slots conns j with
  | none => rfl
  | some s =>
    rw [Option.filter_some, Option.filter_some]
    by_cases hempty : s.conn.inBuf.length = 0
    · rw [(bufEmpty_iff _).mpr hempty, Bool.not_true, Bool.and_false]
    · obtain ⟨hstate, hin⟩ := hended j hpos hle s hs hempty
      obtain ⟨hstate', hin'⟩ := htold j hpos hle s hs
      rw [(isAlive_iff_of_delete hstate').mpr hstate, (isAlive_iff_of_delete hin').mpr hin]
      rfl

theorem SendsFrom.allEvents {mem : ℕ → UInt8} {d : Controller}
    (h : SendsFrom conns tunnel mem c d) : unreadInputs conns d = unreadInputs conns c ∧
      allEvents conns d = allEvents conns c := by
  have hunread : unreadInputs conns d = unreadInputs conns c := by
    unfold unreadInputs
    rw [h.pump]
    refine List.filterMap_congr fun j hj => ?_
    have := (mem_visitOrder.mp hj).1
    rw [h.others j (by omega)]
  exact ⟨hunread, by rw [PortForwarding.allEvents, h.pump, hunread]; rfl⟩

/-- The frames that are sent, if nothing unread has ended. -/
theorem eventsToSend_eq {room : ℕ} (hroom : (stream (allEvents conns c)).length ≤ room)
    (hinputs : unreadInputs conns c = pendingInputs conns c) :
    eventsToSend conns room c = allEvents conns c ∧ 5 * c.pump.cmdQueue.length ≤ room ∧
      (stream ((pendingInputs conns c).map Slot.inputEvent)).length ≤
        room - 5 * c.pump.cmdQueue.length := by
  rw [allEvents, stream_append, List.length_append, length_stream_commands,
    CmdQueue.length_contents, hinputs] at hroom
  have hfits := (Nat.le_add_right _ _).trans hroom
  refine ⟨?_, hfits, Nat.le_sub_of_add_le' hroom⟩
  rw [(eventsToSend_of_room _ hfits).1, allEvents, hinputs, fittingEvents_of_room ?_
    (Nat.le_sub_of_add_le' hroom)]
  intro s hs
  obtain ⟨j, -, hj⟩ := List.mem_filterMap.mp hs
  exact (pendingAt_eq_some_iff.mp hj).2.2.2

/-- A connection whose input is empty afterwards, but was not before, has not ended. -/
theorem not_ended_of_emptied (hready : PumpReady conns c) (htold : NotTold conns c)
    (ht : lookup c.slots conns 0 = some tunnel)
    (hfits : 5 * c.pump.cmdQueue.length ≤ bufFreeLength tunnel.conn.outBuf) {j : ℕ}
    (hj : 1 ≤ j ∧ j ≤ 255) (hs : lookup c.slots conns j = some s) (hne : s.conn.inBuf.length ≠ 0)
    {s' : Slot} (hs' : lookup (sendToTunnel conns c).slots conns j = some s')
    (hempty : s'.conn.inBuf.length = 0) :
    hasEnded s.conn.state = false ∧ hasEnded s.conn.inState = false := by
  obtain ⟨hstate, hin⟩ := htold j hj.1 hj.2 s hs
  by_contra hdead
  have hnone : pendingAt conns c j = none := by
    refine Option.eq_none_iff_forall_ne_some.mpr fun u hu => hdead ?_
    obtain ⟨hu, hustate, huin, -⟩ := pendingAt_eq_some_iff.mp hu
    obtain rfl := Option.some.inj (hu.symm.trans hs)
    exact ⟨(isAlive_iff_of_delete hstate).mp hustate, (isAlive_iff_of_delete hin).mp huin⟩
  rw [lookup_sendToTunnel_of_not_pending hready ht hfits (by omega) hnone, hs] at hs'
  obtain rfl := Option.some.inj hs'
  exact hne hempty

/-- A transfer with room for all inputs, when nothing unread has ended, leaves a connection with an
empty input. -/
theorem emptied_of_not_ended (hready : PumpReady conns c)
    (ht : lookup c.slots conns 0 = some tunnel)
    (hroom : (stream (allEvents conns c)).length ≤ bufFreeLength tunnel.conn.outBuf)
    (hinputs : unreadInputs conns c = pendingInputs conns c) {j : ℕ} (hj : 1 ≤ j ∧ j ≤ 255)
    (hs : lookup c.slots conns j = some s) :
    ∃ s', lookup (sendToTunnel conns c).slots conns j = some s' ∧ s'.conn.inBuf.length = 0 ∧
      s'.conn.inState = s.conn.inState := by
  obtain ⟨-, hfits, hpending⟩ := eventsToSend_eq hroom hinputs
  cases hp : pendingAt conns c j with
  | some u =>
    obtain ⟨hu, -⟩ := pendingAt_eq_some_iff.mp hp
    obtain rfl := Option.some.inj (hu.symm.trans hs)
    exact sendToTunnel_empties hready ht hfits hpending hj hp
  | none =>
    refine ⟨s, ?_, ?_, rfl⟩
    · rw [lookup_sendToTunnel_of_not_pending hready ht hfits (by omega) hp, hs]
    · -- an unread input would be among the pending ones
      by_contra hne
      have hunread : s ∈ unreadInputs conns c := by
        refine List.mem_filterMap.mpr ⟨j, mem_visitOrder.mpr hj, ?_⟩
        rw [hs, Option.filter_some, if_pos]
        simpa [bufEmpty] using hne
      rw [hinputs] at hunread
      obtain ⟨k, hk, hkp⟩ := List.mem_filterMap.mp hunread
      have hsk := (pendingAt_eq_some_iff.mp hkp).1
      have hkj := hready.entries.id hready.nodup hsk
      rw [hready.entries.id hready.nodup hs, Int.ofNat_inj] at hkj
      subst hkj
      exact absurd (hkp.symm.trans hp) (Option.some_ne_none s)

/-- **Bytes read before the end of the input.** `recv_from_tunnel` returns in the state `c₁`, the
peer has told nothing, and the output of the tunnel has room for the frames of all commands and of
all inputs. Whatever its free cells hold, all of them are in it after the transfer exactly if no
connection with unread input has an ended or closed input or is closed itself, and the frames do not
come behind unread bytes that run past the end of the array. -/
theorem all_framed_iff (hready : PumpReady conns c) (ht : lookup c.slots conns 0 = some tunnel)
    (hrecv : recvFromTunnel (onCommand env.connect) env conns c = .ok c₁) (htold : NotTold conns c₁)
    (hroom : (stream (allEvents conns c₁)).length ≤ bufFreeLength tunnel.conn.outBuf) :
    AlwaysTransfers env conns tunnel c (AllFramed conns tunnel c₁) ↔
      (∀ j, 1 ≤ j → j ≤ 255 → ∀ s, lookup c₁.slots conns j = some s → s.conn.inBuf.length ≠ 0 →
        hasEnded s.conn.state = false ∧ hasEnded s.conn.inState = false) ∧
      tunnel.conn.outBuf.InLine ((allEvents conns c₁).map TunnelEvent.frame) := by
  have hfits : 5 * c₁.pump.cmdQueue.length ≤ bufFreeLength tunnel.conn.outBuf := by
    rw [allEvents, stream_append, List.length_append, length_stream_commands,
      CmdQueue.length_contents] at hroom
    exact (Nat.le_add_right _ _).trans hroom
  constructor
  · intro hframed
    have hended : ∀ j, 1 ≤ j → j ≤ 255 → ∀ s, lookup c₁.slots conns j = some s →
        s.conn.inBuf.length ≠ 0 →
          hasEnded s.conn.state = false ∧ hasEnded s.conn.inState = false := by
      intro j hj hj' s hs hne
      obtain ⟨d, hc, hd⟩ := pumpTransfer_unseen hready ht hrecv tunnel.conn.outBuf.buffer
      obtain ⟨t, ht', hbuf⟩ := hd.output
      obtain ⟨c', hc', -, hempty⟩ := hframed _ (holds_buffer _)
      obtain rfl := Except.ok.inj (hc.symm.trans hc')
      obtain ⟨s', hs', hzero, -⟩ := hempty j hj hj' s hs
      have htold' : NotTold conns d := fun k hk hk' u hu =>
        htold k hk hk' u ((hd.others k (by omega)).symm.trans hu)
      exact not_ended_of_emptied hd.ready htold' ht' (by rw [hd.pump, hbuf]; exact hfits) ⟨hj, hj'⟩
        ((hd.others j (by omega)).trans hs) hne hs' hzero
    refine ⟨hended, ?_⟩
    rw [← (eventsToSend_eq hroom (unreadInputs_eq htold hended)).1]
    exact inLine_of_gets hready ht hrecv (hframed.mono fun c' h => ⟨_, h.1⟩)
  · rintro ⟨hended, hline⟩ mem hmem
    have hinputs := unreadInputs_eq htold hended
    have hevents := (eventsToSend_eq hroom hinputs).1
    rw [← hevents] at hline
    obtain ⟨c', hc', -, hgets⟩ := alwaysTransfers_of_inLine hready ht hrecv hline mem hmem
    obtain ⟨d, hc, hd⟩ := pumpTransfer_unseen hready ht hrecv mem
    obtain ⟨t, ht', hbuf⟩ := hd.output
    obtain rfl := Except.ok.inj (hc.symm.trans hc')
    refine ⟨_, hc', hevents ▸ hgets, fun j hj hj' s hs => ?_⟩
    obtain ⟨hunread, hall⟩ := hd.allEvents
    obtain ⟨s', hs', hzero, hsame⟩ := emptied_of_not_ended hd.ready ht'
      (by rw [hall, hbuf]; exact hroom) (by rw [hunread, hinputs, (hd.events 0).1]) ⟨hj, hj'⟩
      ((hd.others j (by omega)).trans hs)
    refine ⟨s', hs', hzero, fun hclosed => ?_⟩
    rw [shouldCloseIn, (bufEmpty_iff _).mpr hzero, hsame, hclosed]
    rfl

/-! ### Samples -/

/-- A client with buffers of two bytes has sent four bytes one by one. There was no room for the
fourth one, and then the last update comes. The state at the entry of the pump with the array and
the tunnel, and the state after receiving. -/
def congested (last : PollEnv) : Option (Controller × Conns × Slot × Controller) :=
  (updates ([clientComes 7, tunnelReads [0x7E, 0, 5, 1, 0x7E], clientReads [1], clientReads [2],
    clientReads [3], clientReads [4]].map fun env => ⟨env, samplePump⟩)
      (startController sampleStart (Nat.succPNat 1) true)).bind fun c₀ =>
    (pumpEntry last c₀).bind fun r => (lookup r.1.slots r.2 0).bind fun tunnel =>
      (recvFromTunnel (onCommand samplePump.connect) samplePump r.2 r.1).toOption.map fun c₁ =>
        (r.1, r.2, tunnel, c₁)

theorem of_congested {last : PollEnv} (h : congested last = some (c, conns, tunnel, c₁)) :
    PumpReady conns c ∧ lookup c.slots conns 0 = some tunnel ∧
      recvFromTunnel (onCommand samplePump.connect) samplePump conns c = .ok c₁ := by
  obtain ⟨c₀, hc₀, h⟩ := Option.bind_eq_some_iff.mp h
  obtain ⟨r, hentry, h⟩ := Option.bind_eq_some_iff.mp h
  obtain ⟨t, ht, h⟩ := Option.bind_eq_some_iff.mp h
  obtain ⟨e, hrecv, heq⟩ := Option.map_eq_some_iff.mp h
  simp only [Prod.mk.injEq] at heq
  obtain ⟨rfl, rfl, rfl, rfl⟩ := heq
  exact ⟨(reach_updates (.start sampleStart) hc₀).pumpReady hentry, ht, eq_ok_of_toOption hrecv⟩

/-- What the theorem asks for: the unread inputs, whether the peer has told nothing, whether nothing
has ended, whether there is room for the frames, and whether they are in line. -/
def inputsAt (conns : Conns) (tunnel : Slot) (c : Controller) :
    List (List UInt8) × Bool × Bool × Bool × Bool :=
  (c.slots.map fun s => s.conn.inBuf.contents,
    c.slots.all fun s => !s.conn.state.delete && !s.conn.inState.delete,
    c.slots.all fun s => !hasEnded s.conn.state && !hasEnded s.conn.inState,
    decide ((stream (allEvents conns c)).length ≤ bufFreeLength tunnel.conn.outBuf),
    decide (tunnel.conn.outBuf.InLine ((allEvents conns c).map TunnelEvent.frame)))

/-- The fourth byte is in the tunnel if the client goes on. -/
theorem all_framed_living : ∃ c conns tunnel c₁,
    congested (tunnelTakes 20 []) = some (c, conns, tunnel, c₁) ∧
    (c₁.slots.map fun s => s.conn.inBuf.contents) = [[], [4]] ∧
      AlwaysTransfers samplePump conns tunnel c (AllFramed conns tunnel c₁) := by
  have hrun : (congested (tunnelTakes 20 [])).map (fun r => inputsAt r.2.1 r.2.2.1 r.2.2.2) =
      some ([[], [4]], true, true, true, true) := by decide +kernel
  obtain ⟨⟨c, conns, tunnel, c₁⟩, hcongested, hrun⟩ := Option.map_eq_some_iff.mp hrun
  simp only [inputsAt, Prod.mk.injEq, List.all_eq_true, Bool.and_eq_true, Bool.not_eq_true',
    decide_eq_true_eq] at hrun
  obtain ⟨hinputs, htold, hended, hroom, hline⟩ := hrun
  obtain ⟨hready, ht, hrecv⟩ := of_congested hcongested
  exact ⟨c, conns, tunnel, c₁, hcongested, hinputs, (all_framed_iff hready ht hrecv
    (fun j _ _ s hs => htold s (lookup_eq_some hs).1) hroom).mpr
      ⟨fun j _ _ s hs _ => hended s (lookup_eq_some hs).1, hline⟩⟩

/-- The fourth byte stays in its buffer if the input of the client has ended. -/
theorem not_all_framed_ended : ∃ c conns tunnel c₁ c',
    congested (clientEndsInto 20) = some (c, conns, tunnel, c₁) ∧
    pumpTransfer (onCommand samplePump.connect) samplePump conns c = .ok c' ∧ NotTold conns c₁ ∧
    (stream (allEvents conns c₁)).length ≤ bufFreeLength tunnel.conn.outBuf ∧
    ¬ AllFramed conns tunnel c₁ c' ∧ (c'.slots.map fun s => s.conn.inBuf.contents) = [[], [4]] := by
  have hrun : (congested (clientEndsInto 20)).map (fun r => inputsAt r.2.1 r.2.2.1 r.2.2.2) =
      some ([[], [4]], true, false, true, true) := by decide +kernel
  have hafter : (congested (clientEndsInto 20)).map (fun r =>
      ((sendToTunnel r.2.1 r.2.2.2).slots.map fun s => s.conn.inBuf.contents,
        (lookup r.2.2.2.slots r.2.1 1).isSome,
        (lookup (sendToTunnel r.2.1 r.2.2.2).slots r.2.1 1).map fun s => s.conn.inBuf.length)) =
          some ([[], [4]], true, some 1) := by decide +kernel
  obtain ⟨⟨c, conns, tunnel, c₁⟩, hcongested, hrun⟩ := Option.map_eq_some_iff.mp hrun
  rw [hcongested, Option.map_some, Option.some.injEq] at hafter
  simp only [inputsAt, Prod.mk.injEq, List.all_eq_true, Bool.and_eq_true, Bool.not_eq_true',
    decide_eq_true_eq] at hrun hafter
  obtain ⟨-, htold, -, hroom, -⟩ := hrun
  obtain ⟨hinputs, hsome, hunread⟩ := hafter
  obtain ⟨s, hs⟩ := Option.isSome_iff_exists.mp hsome
  obtain ⟨hready, ht, hrecv⟩ := of_congested hcongested
  refine ⟨c, conns, tunnel, c₁, _, hcongested, by rw [pumpTransfer_eq, hrecv]; rfl,
    fun j _ _ s hs => htold s (lookup_eq_some hs).1, hroom, ?_, hinputs⟩
  rintro ⟨-, hempty⟩
  obtain ⟨s', hs', hzero, -⟩ := hempty 1 (Nat.le_refl 1) (by decide) s hs
  rw [hs', Option.map_some, hzero] at hunread
  exact absurd hunread (by decide)

end OsTasks.PortForwarding
