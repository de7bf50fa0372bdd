import OsTasks.PortForwarding.Progress
import OsTasks.PortForwarding.Receipt

/-!
# A dead output and the tunnel

`decode` delivers to the output of a connection whatever the state of the output is, and stops when
the buffer is full. The output of a dead direction is never written to its socket, so it does not
get emptier. A full one stops the tunnel for all connections.

## Main definitions

* `DeadTarget`: the next bytes of the tunnel are for a connection with a dead output.
* `Consumes`: receiving takes at least one byte from the tunnel.

## Main results

* `length_decode_lt_iff`: `decode` takes a byte exactly if there is one, and room.
* `dead_output_consumes_iff`: when a dead output does not stop the tunnel.
-/

namespace OsTasks.PortForwarding

variable {conns : Conns} {c c₁ : Controller} {tunnel s : Slot} {k : ℕ}

/-! ### What `decode` takes -/

/-- A turn of the loop takes a byte. -/
theorem lt_decodeLoop_succ (load : ℕ → UInt8) (n : ℕ) (it : BufIter) (srcTotal : ℕ)
    (w : WriteState) : srcTotal < (decodeLoop load (n + 1) it srcTotal w).2.1 := by
  rw [decodeLoop]
  dsimp only
  split_ifs
  · exact Nat.lt_succ_self _
  · exact (Nat.lt_add_of_pos_right Nat.two_pos).trans_le (le_decodeLoop ..)
  · exact Nat.lt_add_of_pos_right Nat.two_pos
  · exact (Nat.lt_succ_self _).trans_le (le_decodeLoop ..)
  · exact Nat.lt_succ_self _

theorem length_decode_le (wild : ℕ → UInt8) (src dst : RoundBuffer) :
    (decode wild src dst).2.1.length ≤ src.length :=
  (length_bufAdvanceReadPtr _ _).trans_le (Nat.sub_le _ _)

/-- `decode` takes a byte exactly if there is one, and room for one. -/
theorem length_decode_lt_iff (wild : ℕ → UInt8) {src : RoundBuffer} (hsrc : src.length ≠ 0)
    (dst : RoundBuffer) :
    (decode wild src dst).2.1.length < src.length ↔ bufFull dst = false := by
  have hle := dst.length_le
  have hfull : bufFull dst = false ↔ bufFreeLength dst ≠ 0 := by
    rw [bufFull, beq_eq_false_iff_ne, bufFreeLength]
    omega
  rw [hfull]
  unfold decode
  dsimp only
  rw [length_bufAdvanceReadPtr]
  cases bufFreeLength dst with
  | zero => simp [decodeLoop]
  | succ n =>
    have htaken := lt_decodeLoop_succ (src.load wild) n (getReadIter src) 0
      ⟨dst.buffer, getWriteIter dst, 0⟩
    simp only [ne_eq, Nat.add_one_ne_zero, not_false_eq_true, iff_true]
    omega

/-- Without room `decode` does not find the end of a frame. -/
theorem decode_of_full (wild : ℕ → UInt8) (src : RoundBuffer) {dst : RoundBuffer}
    (h : bufFull dst = true) : (decode wild src dst).1 = false := by
  have hfree : bufFreeLength dst = 0 := by
    rw [bufFull, beq_iff_eq] at h
    rw [bufFreeLength, h, Nat.sub_self]
  unfold decode
  rw [hfree]
  rfl

/-- The tunnel after bytes have been delivered. -/
theorem tunnel_decodeTo (env : PumpEnv) (id : ℕ) (tunnel' : Slot) (h : PumpReady conns c)
    (ht : lookup c.slots conns 0 = some tunnel) (hs : lookup c.slots conns k = some s) (hk : k ≠ 0)
    (href : tunnel'.ref = tunnel.ref) :
    lookup (decodeTo env id tunnel' s c).2.slots conns 0 = some { tunnel with conn := { tunnel.conn
      with inBuf := (decode env.wild tunnel'.conn.inBuf s.conn.outBuf).2.1 } } := by
  have hne : tunnel.ref ≠ s.ref := h.entries.ref_ne h.nodup ht hs hk.symm
  have ht₁ := lookup_decodeTo env id tunnel' s ht
  rw [href, modifySlot_self] at ht₁
  exact ht₁.trans (congrArg some (if_neg hne))

/-! ### A dead target -/

/-- The next bytes of the tunnel are for connection `k`: a frame for it is in progress, or a frame
for it is at the front. -/
def NextFor (k : ℕ) (c : Controller) (tunnel : Slot) : Prop :=
  c.pump.sendingTo = k ∧ tunnel.conn.inBuf.length ≠ 0 ∨
    c.pump.sendingTo = -1 ∧ ∃ id bytes rest,
      frameAt tunnel.conn.inBuf.contents = some (.data id bytes, rest) ∧ id.toNat = k

/-- The next bytes of the tunnel are for connection `k`, which is listed and has a dead output. -/
structure DeadTarget (conns : Conns) (c : Controller) (k : ℕ) (tunnel s : Slot) : Prop where
  tunnelAt : lookup c.slots conns 0 = some tunnel
  targetAt : lookup c.slots conns k = some s
  dead : isAlive s.conn.outState = false
  next : NextFor k c tunnel

/-- `recv_from_tunnel` takes at least one byte, if it returns. -/
def Consumes (env : PumpEnv) (conns : Conns) (c : Controller) (tunnel : Slot) : Prop :=
  ∀ c₁, recvFromTunnel (onCommand env.connect) env conns c = .ok c₁ →
    ∃ tunnel₁, lookup c₁.slots conns 0 = some tunnel₁ ∧
      tunnel₁.conn.inBuf.length < tunnel.conn.inBuf.length

/-- A data frame at the front. -/
theorem frameAt_eq_data {bs bytes rest : List UInt8} {id : UInt8}
    (h : frameAt bs = some (.data id bytes, rest)) :
    id ≠ 0 ∧ ∃ body, bs = endByte :: id :: body ∧
      unstuff endByte escByte body = some (bytes, rest) := by
  match bs with
  | [] => exact absurd h.symm (Option.some_ne_none _)
  | [b] => exact absurd h.symm (Option.some_ne_none _)
  | b :: i :: body =>
    rw [frameAt] at h
    split_ifs at h with hstart hzero
    · unfold commandAt at h
      split at h
      · cases h
      · cases h
    · obtain ⟨⟨xs, ys⟩, hunstuff, hframe⟩ := Option.map_eq_some_iff.mp h
      simp only [Prod.mk.injEq, TunnelEvent.data.injEq] at hframe
      obtain ⟨⟨rfl, rfl⟩, rfl⟩ := hframe
      exact ⟨hzero, body, by rw [not_not.mp hstart], hunstuff⟩

/-- A frame in progress. -/
theorem consumes_inProgress_iff (env : PumpEnv) (h : PumpReady conns c)
    (hdead : DeadTarget conns c k tunnel s) (hsend : c.pump.sendingTo = k) :
    Consumes env conns c tunnel ↔ bufFull s.conn.outBuf = false := by
  have hne : c.pump.sendingTo ≠ -1 := by omega
  have hpos := h.sendingTo.resolve_left hne
  have hk : k ≠ 0 := by omega
  have hlen : tunnel.conn.inBuf.length ≠ 0 :=
    hdead.next.elim And.right fun hnone => absurd hnone.1 hne
  have hrecv : recvFromTunnel (onCommand env.connect) env conns c =
      if (decodeTo env k tunnel s c).1 then
        nextFrame (onCommand env.connect) env conns
          ((decodeTo env k tunnel s c).2.setSendingTo (-1))
      else .ok (decodeTo env k tunnel s c).2 := by
    have htoNat : c.pump.sendingTo.toNat = k := by omega
    unfold recvFromTunnel
    rw [hdead.tunnelAt]
    dsimp only
    rw [if_neg (by rw [bufEmpty_iff]; exact hlen), if_pos hne, htoNat, hdead.targetAt]
  have ht₁ := tunnel_decodeTo env k tunnel h hdead.tunnelAt hdead.targetAt hk rfl
  rw [← length_decode_lt_iff env.wild hlen]
  constructor
  · intro hconsumes
    by_cases hfull : bufFull s.conn.outBuf = true
    · have hended : (decodeTo env k tunnel s c).1 = false := decode_of_full _ _ hfull
      rw [hended, if_neg Bool.false_ne_true] at hrecv
      obtain ⟨tunnel₁, htunnel₁, hlt⟩ := hconsumes _ hrecv
      obtain rfl := Option.some.inj (ht₁.symm.trans htunnel₁)
      exact hlt
    · exact (length_decode_lt_iff env.wild hlen _).mpr (Bool.eq_false_iff.mpr hfull)
  · intro hlt c₁ hc₁
    rw [hrecv] at hc₁
    split_ifs at hc₁ with hended
    · obtain ⟨i, rfl⟩ := Nat.exists_eq_succ_of_ne_zero hk
      have hready := (decodeTo_induction (P := fun _ => True)
        (fun _ _ _ _ _ => trivial) (fun _ _ => trivial) env (i + 1) tunnel h hdead.tunnelAt rfl
        (Nat.le_refl _) rfl hdead.targetAt trivial).2
      obtain ⟨hreceipt, -⟩ := nextFrame_receipt (hready.setSendingTo (.inl rfl)) hc₁
      obtain ⟨tunnel₁, htunnel₁, hstep⟩ := hreceipt.lookup ht₁
      exact ⟨tunnel₁, htunnel₁, hstep.unread.trans_lt hlt⟩
    · obtain rfl := Except.ok.inj hc₁
      exact ⟨_, ht₁, hlt⟩

/-- A frame at the front. -/
theorem consumes_atFront_iff (env : PumpEnv) (h : PumpReady conns c)
    (hdead : DeadTarget conns c k tunnel s) (hsend : c.pump.sendingTo = -1) :
    Consumes env conns c tunnel ↔ 3 < tunnel.conn.inBuf.length := by
  obtain ⟨id, bytes, rest, hframe, hid⟩ : ∃ id bytes rest,
      frameAt tunnel.conn.inBuf.contents = some (.data id bytes, rest) ∧ id.toNat = k :=
    hdead.next.elim (fun hprogress => by omega) And.right
  obtain ⟨hzero, body, hbytes, -⟩ := frameAt_eq_data hframe
  have hlen : tunnel.conn.inBuf.length = body.length + 2 := by
    rw [← RoundBuffer.length_contents, hbytes]
    rfl
  have hrecv : recvFromTunnel (onCommand env.connect) env conns c =
      nextFrame (onCommand env.connect) env conns c := by
    unfold recvFromTunnel
    rw [hdead.tunnelAt]
    dsimp only
    rw [if_neg (by rw [bufEmpty_iff]; omega), if_neg (not_not_intro hsend)]
  by_cases hmore : 3 < tunnel.conn.inBuf.length
  · refine ⟨fun _ => hmore, fun _ c₁ hc₁ => ?_⟩
    obtain ⟨b₂, b₃, body, rfl⟩ : ∃ b₂ b₃ body', body = b₂ :: b₃ :: body' := by
      match body with
      | [] => simp at hlen; omega
      | [_] => simp at hlen; omega
      | b₂ :: b₃ :: body => exact ⟨b₂, b₃, body, rfl⟩
    have hk : k ≠ 0 := fun hk => hzero (UInt8.toNat_inj.mp (hid.trans hk))
    rw [hrecv, nextFrame_eq hdead.tunnelAt hbytes, if_neg (not_not_intro rfl), if_neg hzero, hid,
      hdead.targetAt] at hc₁
    dsimp only at hc₁
    obtain rfl := Except.ok.inj hc₁
    refine ⟨{ tunnel with conn := { tunnel.conn with inBuf :=
      (decode env.wild tunnel.afterStart.conn.inBuf s.conn.outBuf).2.1 } }, ?_, ?_⟩
    · have ht₁ := tunnel_decodeTo env k tunnel.afterStart h hdead.tunnelAt hdead.targetAt hk rfl
      split_ifs
      · exact ht₁
      · exact ht₁
    · refine (length_decode_le _ _ _).trans_lt ?_
      change (bufAdvanceReadPtr tunnel.conn.inBuf 2).length < _
      rw [length_bufAdvanceReadPtr]
      omega
  · refine ⟨fun hconsumes => ?_, fun h => absurd h hmore⟩
    rw [nextFrame_of_few hdead.tunnelAt (Nat.le_of_not_lt hmore)] at hrecv
    obtain ⟨tunnel₁, htunnel₁, hlt⟩ := hconsumes _ hrecv
    obtain rfl := Option.some.inj (hdead.tunnelAt.symm.trans htunnel₁)
    exact absurd hlt (Nat.lt_irrefl _)

/-- **A dead output and the tunnel.** The next bytes of the tunnel are for a connection with a dead
output. Receiving takes one of them exactly if the output is not full, for a frame in progress, and
if the frame is longer than three bytes or has bytes behind it, for a frame at the front. -/
theorem dead_output_consumes_iff (env : PumpEnv) (h : PumpReady conns c)
    (hdead : DeadTarget conns c k tunnel s) :
    Consumes env conns c tunnel ↔
      (c.pump.sendingTo = k → bufFull s.conn.outBuf = false) ∧
        (c.pump.sendingTo = -1 → 3 < tunnel.conn.inBuf.length) := by
  rcases hdead.next with ⟨hsend, -⟩ | ⟨hsend, -⟩
  · rw [consumes_inProgress_iff env h hdead hsend]
    exact ⟨fun hroom => ⟨fun _ => hroom, fun hnone => by omega⟩, fun hboth => hboth.1 hsend⟩
  · rw [consumes_atFront_iff env h hdead hsend]
    exact ⟨fun hmore => ⟨fun hprogress => by omega, fun _ => hmore⟩, fun hboth => hboth.2 hsend⟩

/-! ### Samples -/

/-- What matters of an endpoint at the entry of the pump: the frame in progress, the unread bytes of
the tunnel, and whether the output of connection `1` is alive and whether it is full. -/
def frameState (r : Controller × Conns) : ℤ × Option (List UInt8) × Option (Bool × Bool) :=
  (r.1.pump.sendingTo, (lookup r.1.slots r.2 0).map fun s => s.conn.inBuf.contents,
    (lookup r.1.slots r.2 1).map fun s => (isAlive s.conn.outState, bufFull s.conn.outBuf))

/-- The output of the only connection dies while a frame for it is in progress. -/
def outputDies (bufSize : ℕ+) (payload last : List UInt8) : Option (Controller × Conns) :=
  (serving bufSize payload).bind (pumpEntry (clientBreaks last))

theorem deadTarget_of_frameState {bs : List UInt8} {full : Bool}
    (hrun : frameState (c, conns) = (1, some bs, some (false, full))) (hbs : bs ≠ []) :
    ∃ tunnel s, DeadTarget conns c 1 tunnel s ∧ c.pump.sendingTo = 1 ∧
      bufFull s.conn.outBuf = full := by
  simp only [frameState, Prod.mk.injEq, Option.map_eq_some_iff] at hrun
  obtain ⟨hsend, ⟨tunnel, ht, rfl⟩, s, hs, hdead, hfull⟩ := hrun
  exact ⟨tunnel, s, ⟨ht, hs, hdead, .inl ⟨hsend, mt tunnel.conn.inBuf.contents_eq_nil_iff.mpr hbs⟩⟩,
    hsend, hfull⟩

/-- The output has room for a third byte. -/
theorem dead_output_consumes_room : ∃ r ∈ outputDies 3 [10, 20] [30, 0x7E], ∃ tunnel s,
    DeadTarget r.2 r.1 1 tunnel s ∧ Consumes samplePump r.2 r.1 tunnel := by
  have hrun : (outputDies 3 [10, 20] [30, 0x7E]).map frameState =
      some (1, some [30, 0x7E], some (false, false)) := by decide +kernel
  obtain ⟨⟨c, conns⟩, hr, hrun⟩ := Option.map_eq_some_iff.mp hrun
  obtain ⟨tunnel, s, hdead, hsend, hfull⟩ := deadTarget_of_frameState hrun (by decide)
  obtain ⟨c₀, hc₀, hentry⟩ := Option.bind_eq_some_iff.mp hr
  have hready := (reach_updates (.start sampleStart) hc₀).pumpReady hentry
  exact ⟨_, hr, tunnel, s, hdead, (dead_output_consumes_iff samplePump hready hdead).mpr
    ⟨fun _ => hfull, fun hnone => absurd (hsend.symm.trans hnone) (by decide)⟩⟩

/-- The output is full, and a command for the connection is behind the rest of the frame. -/
theorem not_dead_output_consumes_full :
    ∃ r ∈ outputDies 2 [10, 20, 30, 0x7E] [0x7E, 0, 2, 1, 0x7E], ∃ tunnel s,
      DeadTarget r.2 r.1 1 tunnel s ∧ ¬ Consumes samplePump r.2 r.1 tunnel := by
  have hrun : (outputDies 2 [10, 20, 30, 0x7E] [0x7E, 0, 2, 1, 0x7E]).map frameState =
      some (1, some [30, 0x7E, 0x7E, 0, 2, 1, 0x7E], some (false, true)) := by
    decide +kernel
  obtain ⟨⟨c, conns⟩, hr, hrun⟩ := Option.map_eq_some_iff.mp hrun
  obtain ⟨tunnel, s, hdead, hsend, hfull⟩ := deadTarget_of_frameState hrun (by decide)
  obtain ⟨c₀, hc₀, hentry⟩ := Option.bind_eq_some_iff.mp hr
  have hready := (reach_updates (.start sampleStart) hc₀).pumpReady hentry
  refine ⟨_, hr, tunnel, s, hdead, fun hconsumes => ?_⟩
  have hroom := (consumes_inProgress_iff samplePump hready hdead hsend).mp hconsumes
  exact absurd (hfull.symm.trans hroom) (by decide)

end OsTasks.PortForwarding
