import OsTasks.PortForwarding.Receive
import OsTasks.PortForwarding.Updates

/-!
# What one call of `recv_from_tunnel` takes

`recv_from_tunnel` takes the frame at the front of the tunnel's input as a whole, or the endpoint is
stuck after it until more bytes have come or a connection has more room.

## Main definitions

* `Stuck`: nothing can be taken from the tunnel.
* `TakesFrame`: the state after a frame has been taken.
* `beginFrame`: the state in which a new frame may be taken.

## Main results

* `nextFrame_spec`, `recvFromTunnel_spec`: a frame is taken as a whole, or the endpoint is stuck.
-/

namespace OsTasks.PortForwarding

variable {handler : Controller → Command → Controller} {env : PumpEnv} {conns : Conns}
  {c : Controller} {tunnel s : Slot}

/-! ### Frames that are taken -/

/-- Nothing can be taken from the tunnel: the frame at its front is not there as a whole, or the
connection it is for has no room. -/
def Stuck (conns : Conns) (c : Controller) : Prop :=
  ∃ tunnel, lookup c.slots conns 0 = some tunnel ∧
    (c.pump.sendingTo = -1 ∧
        (tunnel.conn.inBuf.length ≤ 3 ∨ frameAt tunnel.conn.inBuf.contents = none) ∨
      c.pump.sendingTo ≠ -1 ∧ (tunnel.conn.inBuf.length = 0 ∨
        ∃ target, lookup c.slots conns c.pump.sendingTo.toNat = some target ∧
          target.conn.outBuf.length = target.conn.outBuf.capacity))

/-- The state after a frame at the front of the tunnel has been taken. -/
inductive TakesFrame (handler : Controller → Command → Controller) (conns : Conns) (c : Controller)
    (tunnel : Slot) : TunnelEvent → List UInt8 → Controller → Prop
  | command (cmd arg : UInt8) (rest : List UInt8)
      (hrest : tunnel.conn.inBuf.contents.drop 5 = rest) :
      TakesFrame handler conns c tunnel (.command cmd arg) rest
        (c.handleFrame handler tunnel cmd arg)
  | data {id : UInt8} {bytes rest : List UInt8} {target : Slot} (env : PumpEnv) (hid : id ≠ 0)
      (htarget : lookup c.slots conns id.toNat = some target)
      (hroom : bytes.length < bufFreeLength target.conn.outBuf)
      (hframe : unstuff endByte escByte tunnel.afterStart.conn.inBuf.contents =
        some (bytes, rest)) :
      TakesFrame handler conns c tunnel (.data id bytes) rest
        (c.deliver env id.toNat tunnel.afterStart target)

theorem slots_decodeTo (env : PumpEnv) (id : ℕ) (tunnel target : Slot) (c : Controller) :
    (decodeTo env id tunnel target c).2.slots =
      modifyConn (modifyConn c.slots tunnel.ref fun conn =>
        { conn with inBuf := (decode env.wild tunnel.conn.inBuf target.conn.outBuf).2.1 })
        target.ref
        fun conn =>
          { conn with outBuf := (decode env.wild tunnel.conn.inBuf target.conn.outBuf).2.2 } :=
  rfl

/-- What `decodeTo` does to the object that an entry of the array points to. -/
theorem lookup_decodeTo (env : PumpEnv) (id : ℕ) (tunnel target : Slot) {i : ℕ}
    (hs : lookup c.slots conns i = some s) :
    lookup (decodeTo env id tunnel target c).2.slots conns i =
      some (modifySlot target.ref (fun conn =>
          { conn with outBuf := (decode env.wild tunnel.conn.inBuf target.conn.outBuf).2.2 })
        (modifySlot tunnel.ref (fun conn =>
          { conn with inBuf := (decode env.wild tunnel.conn.inBuf target.conn.outBuf).2.1 })
          s)) := by
  rw [slots_decodeTo, lookup_modifyConn, lookup_modifyConn, hs]
  rfl

/-- What `decodeTo` leaves in the tunnel. -/
theorem exists_lookup_decodeTo (env : PumpEnv) (id : ℕ) {tunnel' : Slot} (target : Slot)
    (ht : lookup c.slots conns 0 = some tunnel) (href : tunnel'.ref = tunnel.ref) :
    ∃ t, lookup (decodeTo env id tunnel' target c).2.slots conns 0 = some t ∧
      t.conn.inBuf = (decode env.wild tunnel'.conn.inBuf target.conn.outBuf).2.1 := by
  refine ⟨_, lookup_decodeTo env id tunnel' target ht, ?_⟩
  rw [modifySlot_of_eq href.symm]
  unfold modifySlot
  split <;> rfl

/-- When `decode` does not deliver a frame as a whole, the endpoint is stuck. -/
theorem stuck_deliver {k : ℕ} {tunnel' : Slot} (ht : lookup c.slots conns 0 = some tunnel)
    (href : tunnel'.ref = tunnel.ref) (hs : lookup c.slots conns k = some s)
    (h : (decode env.wild tunnel'.conn.inBuf s.conn.outBuf).2.1.length = 0 ∨
      (decode env.wild tunnel'.conn.inBuf s.conn.outBuf).1 = false ∧
        (decode env.wild tunnel'.conn.inBuf s.conn.outBuf).2.2.length = s.conn.outBuf.capacity) :
    Stuck conns (c.deliver env k tunnel' s) := by
  let r := decode env.wild tunnel'.conn.inBuf s.conn.outBuf
  obtain ⟨t, hlookup, htunnel⟩ := exists_lookup_decodeTo env k s ht href
  refine ⟨t, hlookup, ?_⟩
  have htarget : (modifySlot s.ref (fun conn => { conn with outBuf := r.2.2 })
      (modifySlot tunnel'.ref (fun conn => { conn with inBuf := r.2.1 }) s)).conn.outBuf =
        r.2.2 := by
    rw [modifySlot_of_eq (ref_modifySlot _ _ s)]
  change (if r.1 then (-1 : ℤ) else k) = -1 ∧ _ ∨ (if r.1 then (-1 : ℤ) else k) ≠ -1 ∧ _
  rw [htunnel]
  rcases h with hempty | ⟨hfalse, hfull⟩
  · by_cases hidle : (if r.1 then (-1 : ℤ) else k) = -1
    · exact .inl ⟨hidle, .inl (hempty.le.trans (Nat.zero_le 3))⟩
    · exact .inr ⟨hidle, .inl hempty⟩
  · have hk : (if r.1 then (-1 : ℤ) else k) = k := if_neg (hfalse ▸ Bool.false_ne_true)
    refine .inr ⟨by omega, .inr ⟨_, (congrArg _ ?_).trans (lookup_decodeTo env k tunnel' s hs), ?_⟩⟩
    · change (if r.1 then (-1 : ℤ) else k).toNat = k
      rw [hk, Int.toNat_natCast]
    · rw [htarget]
      exact hfull

/-- **A frame is taken as a whole, or the endpoint is stuck.** -/
theorem nextFrame_spec (ht : lookup c.slots conns 0 = some tunnel) (hsend : c.pump.sendingTo = -1)
    (hnd : (c.slots.map Slot.ref).Nodup) (hconns : ConnsOk conns c.slots) {c' : Controller}
    (hc : nextFrame handler env conns c = .ok c') :
    Stuck conns c' ∧ ConnsOk conns c'.slots ∨
      ∃ e rest, frameAt tunnel.conn.inBuf.contents = some (e, rest) ∧
        TakesFrame handler conns c tunnel e rest c' := by
  have hidle (h : tunnel.conn.inBuf.length ≤ 3 ∨ frameAt tunnel.conn.inBuf.contents = none) :
      Stuck conns c ∧ ConnsOk conns c.slots := ⟨⟨tunnel, ht, .inl ⟨hsend, h⟩⟩, hconns⟩
  match hcontents : tunnel.conn.inBuf.contents with
  | [] | [_] | [_, _] | [_, _, _] =>
    have hfew : tunnel.conn.inBuf.length ≤ 3 := by
      rw [← RoundBuffer.length_contents, hcontents]
      simp
    rw [nextFrame_of_few ht hfew] at hc
    obtain rfl := Except.ok.inj hc
    exact .inl (hidle (.inl hfew))
  | b₀ :: b₁ :: b₂ :: b₃ :: bytes =>
    rw [nextFrame_eq ht hcontents] at hc
    split_ifs at hc with hend hcmd hfew
    · obtain rfl := Except.ok.inj hc
      rw [List.length_eq_zero_iff.mp hfew] at hcontents
      refine .inl (hidle (.inr ?_))
      rw [hcontents, frameAt, if_neg hend, if_pos hcmd]
      rfl
    · obtain rfl := Except.ok.inj hc
      obtain ⟨b₄, rest, rfl⟩ := List.exists_cons_of_length_pos (Nat.pos_of_ne_zero hfew)
      refine .inr ⟨.command b₂ b₃, rest, ?_, .command b₂ b₃ rest (by rw [hcontents]; rfl)⟩
      rw [frameAt, if_neg hend, if_pos hcmd]
      rfl
    · split at hc
      · cases hc
      rename_i target htarget
      rw [deliver_of_idle hsend] at hc
      obtain rfl := Except.ok.inj hc
      have hbytes : tunnel.afterStart.conn.inBuf.contents = b₂ :: b₃ :: bytes := by
        rw [Slot.afterStart, contents_bufAdvanceReadPtr, hcontents]
        rfl
      rcases decode_cases env.wild tunnel.afterStart.conn.inBuf target.conn.outBuf with
        ⟨xs, rest, hframe, hroom⟩ | hstuck
      · refine .inr ⟨.data b₁ xs, rest, ?_, .data env hcmd htarget hroom hframe⟩
        rw [hbytes] at hframe
        rw [frameAt, if_neg hend, if_neg hcmd, hframe]
        rfl
      · have hmem := (lookup_eq_some htarget).1
        exact .inl ⟨stuck_deliver ht rfl htarget hstuck,
          hconns.moved (slotsMoved_deliver hnd env b₁.toNat tunnel.afterStart hmem)⟩

/-! ### A call -/

/-- The state in which `recv_from_tunnel` comes to its second half, where a new frame may be taken,
if it does. -/
def beginFrame (env : PumpEnv) (conns : Conns) (c : Controller) : Option Controller :=
  match lookup c.slots conns 0 with
  | none => none
  | some tunnel =>
    if bufEmpty tunnel.conn.inBuf then none
    else if c.pump.sendingTo ≠ -1 then
      match lookup c.slots conns c.pump.sendingTo.toNat with
      | none => none
      | some target =>
        let r := decodeTo env c.pump.sendingTo.toNat tunnel target c
        if r.1 then some (r.2.setSendingTo (-1)) else none
    else some c

/-- **A call takes a frame as a whole, or the endpoint is stuck after it.** -/
theorem recvFromTunnel_spec (h : WellFormed c) (hconns : ConnsOk conns c.slots) {c' : Controller}
    (hc : recvFromTunnel handler env conns c = .ok c') :
    Stuck conns c' ∧ ConnsOk conns c'.slots ∨ ∃ c₁ tunnel e rest,
      beginFrame env conns c = some c₁ ∧ WellFormed c₁ ∧ ConnsOk conns c₁.slots ∧
      lookup c₁.slots conns 0 = some tunnel ∧ c₁.pump.sendingTo = -1 ∧
      frameAt tunnel.conn.inBuf.contents = some (e, rest) ∧
      TakesFrame handler conns c₁ tunnel e rest c' := by
  unfold recvFromTunnel at hc
  unfold beginFrame
  cases htunnel : lookup c.slots conns 0 with
  | none =>
    rw [htunnel] at hc
    cases hc
  | some tunnel =>
    rw [htunnel] at hc
    dsimp only at hc ⊢
    by_cases hempty : bufEmpty tunnel.conn.inBuf = true
    · rw [if_pos hempty] at hc
      obtain rfl := Except.ok.inj hc
      rw [bufEmpty_iff] at hempty
      refine .inl ⟨⟨tunnel, htunnel, ?_⟩, hconns⟩
      by_cases hsend : c.pump.sendingTo = -1
      · exact .inl ⟨hsend, .inl (hempty.le.trans (Nat.zero_le 3))⟩
      · exact .inr ⟨hsend, .inl hempty⟩
    rw [if_neg hempty] at hc ⊢
    by_cases hsend : c.pump.sendingTo = -1
    · rw [if_neg (not_not_intro hsend)] at hc ⊢
      refine (nextFrame_spec htunnel hsend h.nodup hconns hc).imp id fun htaken => ?_
      obtain ⟨e, rest, hframe, htakes⟩ := htaken
      exact ⟨c, tunnel, e, rest, rfl, h, hconns, htunnel, hsend, hframe, htakes⟩
    · rw [if_pos hsend] at hc ⊢
      cases htarget : lookup c.slots conns c.pump.sendingTo.toNat with
      | none =>
        rw [htarget] at hc
        cases hc
      | some target =>
        rw [htarget] at hc
        obtain ⟨hlast, hdel⟩ := (hconns.lookup_iff h.nodup).mp htarget
        have hrange := h.sendingTo.resolve_left hsend
        have hk : c.pump.sendingTo = (c.pump.sendingTo.toNat : ℤ) := by omega
        have hmoved := hconns.moved (slotsMoved_deliver h.nodup env c.pump.sendingTo.toNat tunnel
          (lookup_eq_some htarget).1)
        have hwf := (Step.deliver env tunnel (by omega) hlast hdel (.inr hk)).wellFormed h
        have hdeliver := deliver_of_busy hk env tunnel target
        dsimp only at hc ⊢
        by_cases hend : (decodeTo env c.pump.sendingTo.toNat tunnel target c).1 = true
        · rw [if_pos hend] at hc hdeliver ⊢
          have hlookup := lookup_decodeTo env c.pump.sendingTo.toNat tunnel target htunnel
          let c₁ := (decodeTo env c.pump.sendingTo.toNat tunnel target c).2.setSendingTo (-1)
          rw [← hdeliver] at hwf hmoved
          refine (nextFrame_spec (c := c₁) hlookup rfl hwf.nodup hmoved hc).imp id fun htaken => ?_
          obtain ⟨e, rest, hframe, htakes⟩ := htaken
          exact ⟨c₁, _, e, rest, rfl, hwf, hmoved, hlookup, rfl, hframe, htakes⟩
        · rw [if_neg hend] at hc hdeliver
          obtain rfl := Except.ok.inj hc
          refine .inl ?_
          rw [hdeliver]
          refine ⟨stuck_deliver htunnel rfl htarget ?_, hmoved⟩
          refine (decode_cases env.wild tunnel.conn.inBuf target.conn.outBuf).resolve_left ?_
          rintro ⟨xs, rest, hframe, hroom⟩
          exact hend (congrArg Prod.fst (decode_of_unstuff env.wild hframe hroom))

end OsTasks.PortForwarding
