import OsTasks.PortForwarding.FrameBytes
import OsTasks.PortForwarding.Updates

/-!
# Resuming a partly delivered frame

When a frame does not fit into the output of its connection, `recv_from_tunnel` remembers the id in
`sending_to` and continues in a later update, without looking whether the connection is still
there. It is: a connection whose frame is in progress holds undelivered bytes or can still send
them, and neither `close_sockets` and `shrink` nor `handle_state_changes` removes such a one, while
commands of the peer have to wait behind the frame.

## Main definitions

* `Receiving`: a connection that stays in the list until its frame has been delivered.
* `InProgress`: the invariant on `sending_to`.

## Main results

* `Step.inProgress`: every step keeps the invariant.
* `resume_safe`: the pump never dereferences a null pointer for `sending_to`.
-/

namespace OsTasks.PortForwarding

/-! ### The invariant -/

/-- A connection that is not marked for deletion, and that may still send or holds bytes that it
can no longer get rid of. -/
def Receiving (s : Slot) : Prop :=
  s.conn.state.delete = false ∧ (s.conn.outState.delete = false ∨ s.conn.outBuf.length ≠ 0)

/-- A frame in progress has a receiver: the last connection with its id. -/
def InProgress (c : Controller) : Prop :=
  ∀ k : ℕ, c.pump.sendingTo = k → ∃ s, lastWithId k c.slots = some s ∧ Receiving s

/-! ### One connection -/

theorem Receiving.slotOp {s s' : Slot} (hop : SlotOp s s') (h : Receiving s) : Receiving s' := by
  have hkeep := hop.keeps
  refine ⟨hkeep.delete.trans h.1, ?_⟩
  rw [hkeep.outDelete]
  cases hdel : s.conn.outState.delete with
  | false => exact .inl rfl
  | true =>
    -- nothing is written to the socket of a direction that is marked for deletion
    refine .inr ?_
    have hne : s.conn.outBuf.length ≠ 0 := h.2.resolve_left (by simp [hdel])
    cases hop with
    | close =>
      rcases closeSocket_cases s with ⟨-, h'⟩ | ⟨-, -, h'⟩ | ⟨-, -, h'⟩ <;> rw [h'] <;> exact hne
    | arm =>
      unfold armOutput
      split_ifs <;> exact hne
    | poll => exact hne
    | receive r =>
      rcases receive_cases r s with h' | ⟨_, _, h', -, -, rfl | ⟨_, rfl⟩⟩ <;> rw [h'] <;> exact hne
    | transmit r =>
      rcases transmit_cases r s with h' | ⟨_, _, h', halive, -⟩ <;> rw [h']
      · exact hne
      · simp [hdel] at halive

theorem Receiving.slotRun {s s' : Slot} (hrun : SlotRun s s') (h : Receiving s) : Receiving s' :=
  hrun.keep Receiving.slotOp h

theorem Receiving.bufferStep {s s' : Slot} (hstep : BufferStep s s') (h : Receiving s) :
    Receiving s' := by
  refine ⟨by rw [hstep.state]; exact h.1, ?_⟩
  rw [hstep.outState]
  have hlen := hstep.outBuf
  exact h.2.imp id fun hne => by omega

/-- An output that has been closed without a request of the peer holds bytes. -/
theorem Receiving.length_of_closed {s : Slot} (h : Receiving s) (hok : ConnOk s.conn)
    (hclosed : s.conn.outState.closed = true) : s.conn.outBuf.length ≠ 0 := by
  rcases h.2 with hdel | hne
  · refine hok.unsent ?_
    rcases hok.outEnded hclosed with hstate | hout
    · have hout := ((hok.ended hstate).resolve_left (by simp [h.1])).2
      exact ((shouldClose_iff _).mp hout).resolve_right (by simp [hdel])
    · exact ((shouldClose_iff _).mp hout).resolve_right (by simp [hdel])
  · exact hne

/-- No announcement takes the connection of a frame in progress away. -/
theorem Receiving.announces {s : Slot} {cmd : UInt8} {conn : Connection}
    (hann : Announces s.conn cmd conn) (hok : ConnOk s.conn) (h : Receiving s) :
    Receiving { s with conn := conn } := by
  cases hann with
  | new => exact h
  | close _ hclose =>
    simp only [shouldCloseConnection, Bool.and_eq_true, bufEmpty_iff] at hclose
    exact absurd hclose.1.2 (h.length_of_closed hok (hok.outClosed hclose.2))
  | closeIn => exact h
  | closeOut _ _ hclose =>
    simp only [shouldCloseOut, Bool.and_eq_true, bufEmpty_iff] at hclose
    exact absurd hclose.1 (h.length_of_closed hok hclose.2)

/-- What one turn of the decoding loop does: it comes to the end of the frame, or it writes a byte
and goes on or stops. -/
theorem decodeLoop_cases (load : ℕ → UInt8) (n : ℕ) (it : BufIter) (k : ℕ) (w : WriteState) :
    decodeLoop load (n + 1) it k w = (true, k + 1, w) ∨
      ∃ it' k' b, decodeLoop load (n + 1) it k w = decodeLoop load n it' k' (w.push b) ∨
        decodeLoop load (n + 1) it k w = (false, k', w.push b) := by
  rw [decodeLoop]
  dsimp only
  by_cases hend : load it.ptr = endByte
  · exact .inl (if_pos hend)
  · rw [if_neg hend]
    generalize (if load it.ptr = escByte then (bufIterNext it).2 else it) = it'
    generalize (if load it.ptr = escByte then k + 2 else k + 1) = k'
    generalize (if load it.ptr = escByte then load it'.ptr else load it.ptr) = b
    refine .inr ⟨(bufIterNext it').2, k', b, ?_⟩
    by_cases hnext : (bufIterNext it').1 = true
    · exact .inl (if_pos hnext)
    · exact .inr (if_neg hnext)

theorem total_decodeLoop (load : ℕ → UInt8) (n : ℕ) (it : BufIter) (k : ℕ) (w : WriteState) :
    w.total ≤ (decodeLoop load n it k w).2.2.total := by
  induction n generalizing it k w with
  | zero => exact Nat.le_refl _
  | succ n ih =>
    rcases decodeLoop_cases load n it k w with h | ⟨it', k', b, h | h⟩ <;> rw [h]
    · have hrest := ih it' k' (w.push b)
      rw [WriteState.total_push] at hrest
      omega
    · exact Nat.le_succ _

/-- A decoding loop that has room and does not come to the end of the frame writes a byte. -/
theorem total_decodeLoop_of_not_ended {load : ℕ → UInt8} {n : ℕ} {it : BufIter} {k : ℕ}
    {w : WriteState} (hfalse : (decodeLoop load (n + 1) it k w).1 = false) :
    w.total < (decodeLoop load (n + 1) it k w).2.2.total := by
  rcases decodeLoop_cases load n it k w with h | ⟨it', k', b, h | h⟩ <;> rw [h] at hfalse ⊢
  · exact absurd hfalse.symm Bool.false_ne_true
  · have hrest := total_decodeLoop load n it' k' (w.push b)
    rw [WriteState.total_push] at hrest
    omega
  · exact Nat.lt_succ_self _

/-- The bytes of a frame that did not end are in the output of its connection. -/
theorem length_decode_of_not_ended {wild : ℕ → UInt8} {src dst : RoundBuffer}
    (h : (decode wild src dst).1 = false) : (decode wild src dst).2.2.length ≠ 0 := by
  have hcap := dst.capacity_pos
  have hlen := dst.length_le
  unfold decode at h ⊢
  dsimp only at h ⊢
  rw [length_bufAdvanceWritePtr]
  dsimp only
  cases hfree : bufFreeLength dst with
  | zero =>
    unfold bufFreeLength at hfree
    omega
  | succ n =>
    rw [hfree] at h
    have htotal := total_decodeLoop_of_not_ended h
    omega

/-! ### The list of connections -/

/-- The last connection with an id is still the last one if no other can take its place. -/
theorem lastWithId_filterMap {k : ℕ} {slots : List Slot} {f : Slot → Option Slot}
    (hid : ∀ s s', f s = some s' → s'.conn.id = s.conn.id) {s s' : Slot}
    (hlast : lastWithId k slots = some s) (hs : f s = some s') :
    lastWithId k (slots.filterMap f) = some s' := by
  induction slots with
  | nil => exact absurd hlast.symm (Option.some_ne_none s)
  | cons t slots ih =>
    rw [lastWithId_cons] at hlast
    cases htail : lastWithId k slots with
    | some u =>
      rw [htail, Option.some_or] at hlast
      have := ih (htail.trans hlast)
      cases hft : f t with
      | none => rw [List.filterMap_cons_none hft, this]
      | some t' => rw [List.filterMap_cons_some hft, lastWithId_cons, this, Option.some_or]
    | none =>
      rw [htail, Option.none_or] at hlast
      split_ifs at hlast with hidt
      obtain rfl := Option.some.inj hlast
      have hnone : lastWithId k (slots.filterMap f) = none := by
        rw [lastWithId_eq_none_iff] at htail ⊢
        intro u' hu'
        obtain ⟨u, hu, hfu⟩ := List.mem_filterMap.mp hu'
        rw [hid u u' hfu]
        exact htail u hu
      rw [List.filterMap_cons_some hs, lastWithId_cons, hnone, Option.none_or,
        if_pos ((hid _ _ hs).trans hidt)]

/-- A connection that gets an id while it waits can receive. -/
theorem exists_lastWithId_of_assigned {stack : List ℤ} {slots slots' : List Slot}
    (h : List.Forall₂ (Assigned stack) slots slots') (hok : ∀ s ∈ slots, SlotOk s)
    {k : ℕ} {s : Slot} (hlast : lastWithId k slots = some s) (hs : Receiving s) :
    ∃ s', lastWithId k slots' = some s' ∧ Receiving s' := by
  have hwaiting : ∀ t t', SlotOk t → Assigned stack t t' → t.conn.id ≠ k → t'.conn.id = k →
      Receiving t' := by
    rintro t t' ht (rfl | ⟨hneg, id, -, rfl⟩) hne heq
    · exact absurd heq hne
    · exact ⟨(ht.waiting hneg).1, .inl (ht.waiting hneg).2⟩
  induction h with
  | nil => exact absurd hlast.symm (Option.some_ne_none s)
  | @cons t t' slots slots' ht hrest ih =>
    have hoks : ∀ u ∈ slots, SlotOk u := fun u hu => hok u (List.mem_cons_of_mem _ hu)
    rw [lastWithId_cons] at hlast
    cases htail : lastWithId k slots with
    | some u =>
      rw [htail, Option.some_or] at hlast
      obtain ⟨s', hs', hrec⟩ := ih hoks (htail.trans hlast)
      exact ⟨s', by rw [lastWithId_cons, hs', Option.some_or], hrec⟩
    | none =>
      rw [htail, Option.none_or] at hlast
      split_ifs at hlast with hidt
      obtain rfl := Option.some.inj hlast
      have hsame : t' = t := ht.resolve_right fun hneg => by omega
      subst hsame
      cases htail' : lastWithId k slots' with
      | none =>
        exact ⟨t', by rw [lastWithId_cons, htail', Option.none_or, if_pos hidt], hs⟩
      | some u' =>
        refine ⟨u', by rw [lastWithId_cons, htail', Option.some_or], ?_⟩
        obtain ⟨hu', hidu'⟩ := mem_of_lastWithId htail'
        obtain ⟨u, hu, hass⟩ := exists_of_forall₂_of_mem hrest hu'
        exact hwaiting u u' (hoks u hu) hass (lastWithId_eq_none_iff.mp htail u hu) hidu'

/-! ### Every step -/

theorem InProgress.map {c c' : Controller} (h : InProgress c) {g : Slot → Slot}
    (hslots : c'.slots = c.slots.map g) (hid : ∀ s ∈ c.slots, (g s).conn.id = s.conn.id)
    (hrec : ∀ s ∈ c.slots, Receiving s → Receiving (g s))
    (hsend : c'.pump.sendingTo = c.pump.sendingTo) : InProgress c' := by
  intro k hk
  obtain ⟨s, hlast, hs⟩ := h k (hsend ▸ hk)
  refine ⟨g s, ?_, hrec s (mem_of_lastWithId hlast).1 hs⟩
  rw [hslots, lastWithId_map k hid, hlast, Option.map_some]

theorem InProgress.poll {c : Controller} {env : PollEnv} {m : Manager} {cause : CloseCause}
    (hpoll : cmPoll env c.manager = .ok (m, cause)) (h : InProgress c) :
    InProgress { c with manager := m } := by
  obtain ⟨f, new, hslots, hnone, hrun, hnew⟩ := cmPoll_effect hpoll
  intro k hk
  obtain ⟨s, hlast, hs⟩ := h k hk
  cases hfs : f s with
  | none =>
    rw [hnone, hs.1] at hfs
    exact absurd hfs Bool.false_ne_true
  | some s' =>
    refine ⟨s', ?_, hs.slotRun (hrun s s' hfs)⟩
    have hclients : lastWithId k new = none := by
      rw [lastWithId_eq_none_iff]
      rcases hnew with ⟨rfl, -⟩ | ⟨t, rfl, ht, -⟩
      · exact fun u hu => absurd hu List.not_mem_nil
      · intro u hu
        rw [List.mem_singleton.mp hu, ht.id]
        omega
    change lastWithId k m.slots = some s'
    rw [hslots, lastWithId_append, hclients, Option.none_or]
    exact lastWithId_filterMap (fun t t' ht => (hrun t t' ht).keeps.id) hlast hfs

theorem inProgress_deliver {c : Controller} (env : PumpEnv) {id : ℕ}
    (tunnel : Slot) {target : Slot} (hlast : lastWithId id c.slots = some target)
    (hdel : target.conn.state.delete = false) : InProgress (c.deliver env id tunnel target) := by
  intro k hk
  cases hend : (decode env.wild tunnel.conn.inBuf target.conn.outBuf).1 with
  | true =>
    have hminus : (c.deliver env id tunnel target).pump.sendingTo = -1 := if_pos hend
    omega
  | false =>
    have hid : (c.deliver env id tunnel target).pump.sendingTo = id :=
      if_neg (by simp only [decodeTo, hend, Bool.false_eq_true, not_false_eq_true])
    obtain rfl : id = k := by omega
    let f : Connection → Connection := fun conn =>
      { conn with inBuf := (decode env.wild tunnel.conn.inBuf target.conn.outBuf).2.1 }
    let f' : Connection → Connection := fun conn =>
      { conn with outBuf := (decode env.wild tunnel.conn.inBuf target.conn.outBuf).2.2 }
    have hslots : (c.deliver env id tunnel target).slots =
        (c.slots.map (modifySlot tunnel.ref f)).map (modifySlot target.ref f') := rfl
    have hkeep : ∀ (ref : ℕ) (g : Connection → Connection), (∀ conn, (g conn).id = conn.id) →
        ∀ s, (modifySlot ref g s).conn.id = s.conn.id := by
      intro ref g hg s
      unfold modifySlot
      split
      · exact hg s.conn
      · rfl
    refine ⟨modifySlot target.ref f' (modifySlot tunnel.ref f target), ?_, ?_⟩
    · rw [hslots, lastWithId_map _ fun s _ => hkeep _ f' (fun _ => rfl) s,
        lastWithId_map _ fun s _ => hkeep _ f (fun _ => rfl) s, hlast]
      rfl
    · rw [modifySlot_of_eq (ref_modifySlot _ _ _)]
      refine ⟨?_, .inr (length_decode_of_not_ended hend)⟩
      change (modifySlot tunnel.ref f target).conn.state.delete = false
      unfold modifySlot
      split <;> exact hdel

/-- **Every step keeps a frame in progress deliverable.** -/
theorem Step.inProgress {c c' : Controller} (hwf : WellFormed c) (hstep : Step c c')
    (h : InProgress c) : InProgress c' := by
  cases hstep with
  | poll hpoll => exact h.poll hpoll
  | sort =>
    intro k hk
    obtain ⟨s, hlast, hs⟩ := h k hk
    exact exists_lastWithId_of_assigned hwf.sort_assigns.forall₂.1 hwf.slotOk hlast hs
  | @announce s cmd conn q hs hid hdel hann hq =>
    have hself : Receiving s → Receiving { s with conn := conn } :=
      fun hrec => hrec.announces hann (hwf.slotOk s hs).connOk
    refine h.map (slots_announce c s cmd conn q) (fun t ht => ?_) (fun t ht => ?_) rfl
    · exact id_modifySlot hwf.nodup hs hann.id ht
    · exact modifySlot_rel hwf.nodup hs (P := fun t t' => Receiving t → Receiving t') hself
        (fun _ _ _ hrec => hrec) ht
  | deliver env tunnel hid hlast hdel => exact inProgress_deliver env tunnel hlast hdel
  | handle env cmd arg hsend =>
    intro k hk
    obtain ⟨opened, heff⟩ := onCommand_effect env c ⟨cmd, arg, 0⟩
    rw [heff.sendingTo, hsend] at hk
    omega
  | quiet hq =>
    obtain ⟨g, hslots, hg, -⟩ := hq.moved
    exact h.map hslots (fun s hs => (hg s hs).id) (fun s hs hrec => hrec.bufferStep (hg s hs))
      hq.sendingTo

/-! ### Runs -/

variable {bufSize : ℕ+} {accepting : Bool}

theorem Visit.inProgress {c : Controller} (h : Visit bufSize accepting c) : InProgress c :=
  h.induction (fun env k hk => by
    change (-1 : ℤ) = k at hk
    omega) fun hwf hstep => hstep.inProgress hwf

/-- **The pump never follows a null pointer for `sending_to`.** Whenever it is entered with a frame
in progress, `sending_to` is an index of the array and its entry points to a connection. -/
theorem resume_safe {c c' : Controller} (h : Reach bufSize accepting c) {env : PollEnv}
    {conns : Conns} (hc : beforeTransfer env c = .ok (c', .inr conns))
    (hsend : c'.pump.sendingTo ≠ -1) :
    1 ≤ c'.pump.sendingTo ∧ c'.pump.sendingTo < maxConnections ∧
      (lookup c'.slots conns c'.pump.sendingTo.toNat).isSome := by
  have hvisit : Visit bufSize accepting c' := .entry h hc
  have hwf := hvisit.wellFormed
  have hrange := hwf.sendingTo.resolve_left hsend
  have hwf₀ : WellFormed c := (Visit.reach h).wellFormed
  have hconns := (beforeTransfer_run hwf₀ hc).2 conns rfl
  obtain ⟨s, hlast, hs⟩ := hvisit.inProgress c'.pump.sendingTo.toNat (by omega)
  refine ⟨hrange.1, ?_, ?_⟩
  · rw [maxConnections]
    omega
  · rw [(hconns.lookup_iff hwf.nodup).mpr ⟨hlast, hs.1⟩]
    rfl

/-- A connecting endpoint with buffers of two bytes that has opened connection `1` and has received
three bytes for it. -/
def frameInProgress : Option Controller :=
  updates [⟨tunnelReads [0x7E, 0, 1, 1, 0x7E], samplePump⟩,
    ⟨tunnelReads [0x7E, 1, 10, 20, 30, 0x7E], samplePump⟩] (startController sampleStart 2 false)

theorem resume_safe_frameInProgress :
    ∃ c ∈ frameInProgress, ∃ c' conns, pumpEntry quietPoll c = some (c', conns) ∧
      c'.pump.sendingTo = 1 ∧ (lookup c'.slots conns c'.pump.sendingTo.toNat).isSome := by
  have hsend : (frameInProgress.bind (pumpEntry quietPoll)).map (fun r => r.1.pump.sendingTo) =
      some 1 := by decide +kernel
  obtain ⟨⟨c', conns⟩, hbind, hk⟩ := Option.map_eq_some_iff.mp hsend
  obtain ⟨c, hc, hentry⟩ := Option.bind_eq_some_iff.mp hbind
  have hne : c'.pump.sendingTo ≠ -1 := by
    rw [show c'.pump.sendingTo = 1 from hk]
    decide
  exact ⟨c, hc, c', conns, hentry, hk,
    (resume_safe (reach_updates (.start sampleStart) hc) (beforeTransfer_of_pumpEntry hentry)
      hne).2.2⟩

end OsTasks.PortForwarding
