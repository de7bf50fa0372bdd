import OsTasks.PortForwarding.Arrivals

/-!
# What one call of `recv_from_tunnel` can do

A call of `recv_from_tunnel` goes on with the data frame in progress, if there is one, and takes the
next frame when no frame is in progress any more. Either part may find too few bytes.

## Main definitions

* `StartsFrame`: what happens where a new frame may be taken.
* `Intake`: what a call does, for what it takes.

## Main results

* `recvFromTunnel_intake`: every call does one of these things.
-/

namespace OsTasks.PortForwarding

variable (handler : Controller → Command → Controller) (env : PumpEnv) (conns : Conns)

/-- What happens where a new frame may be taken, and the start of the frame that is taken. -/
inductive StartsFrame (c : Controller) : Option FrameStart → Controller → Prop
  | nothing {tunnel : Slot} (ht : lookup c.slots conns 0 = some tunnel)
      (hfew : frameStart tunnel.conn.inBuf.contents = none) : StartsFrame c none c
  | command {tunnel : Slot} {cmd arg b : UInt8} {bytes : List UInt8}
      (ht : lookup c.slots conns 0 = some tunnel)
      (hbytes : tunnel.conn.inBuf.contents = endByte :: 0 :: cmd :: arg :: b :: bytes) :
      StartsFrame c (some (.command cmd arg)) (c.handleFrame handler tunnel cmd arg)
  | data {tunnel target : Slot} {id b b' : UInt8} {bytes : List UInt8}
      (ht : lookup c.slots conns 0 = some tunnel) (hid : id ≠ 0)
      (hbytes : tunnel.conn.inBuf.contents = endByte :: id :: b :: b' :: bytes)
      (htarget : lookup c.slots conns id.toNat = some target) :
      StartsFrame c (some (.data id)) (c.deliver env id.toNat tunnel.afterStart target)

/-- What a call of `recv_from_tunnel` does, and what it takes. -/
inductive Intake (c : Controller) : Taking → Controller → Prop
  | nothing {tunnel : Slot} (ht : lookup c.slots conns 0 = some tunnel)
      (hempty : tunnel.conn.inBuf.length = 0) : Intake c {} c
  | starts {start : Option FrameStart} {c' : Controller} (hsend : c.pump.sendingTo = -1)
      (h : StartsFrame handler env conns c start c') : Intake c { start := start } c'
  | goesOn {tunnel target : Slot} {id : ℕ} (ht : lookup c.slots conns 0 = some tunnel)
      (hne : tunnel.conn.inBuf.length ≠ 0) (hid : 1 ≤ id) (hsend : c.pump.sendingTo = id)
      (htarget : lookup c.slots conns id = some target)
      (hend : (decode env.wild tunnel.conn.inBuf target.conn.outBuf).1 = false) :
      Intake c { resumed := some false } (c.deliver env id tunnel target)
  | ends {tunnel target : Slot} {id : ℕ} {start : Option FrameStart} {c' : Controller}
      (ht : lookup c.slots conns 0 = some tunnel)
      (hne : tunnel.conn.inBuf.length ≠ 0) (hid : 1 ≤ id) (hsend : c.pump.sendingTo = id)
      (htarget : lookup c.slots conns id = some target)
      (hend : (decode env.wild tunnel.conn.inBuf target.conn.outBuf).1 = true)
      (h : StartsFrame handler env conns (c.deliver env id tunnel target) start c') :
      Intake c { resumed := some true, start := start } c'

variable {handler env conns} {c c' : Controller}

/-- Taking a new frame. -/
theorem nextFrame_starts {tunnel : Slot} (ht : lookup c.slots conns 0 = some tunnel)
    (hsend : c.pump.sendingTo = -1) (hc : nextFrame handler env conns c = .ok c') :
    StartsFrame handler env conns c (frameStart tunnel.conn.inBuf.contents) c' := by
  have hnothing (hfew : frameStart tunnel.conn.inBuf.contents = none) :
      StartsFrame handler env conns c (frameStart tunnel.conn.inBuf.contents) c :=
    hfew.symm ▸ .nothing ht hfew
  match hcontents : tunnel.conn.inBuf.contents with
  | [] | [_] | [_, _] | [_, _, _] =>
    have hfew : tunnel.conn.inBuf.length ≤ 3 := by
      rw [← RoundBuffer.length_contents, hcontents]
      simp
    rw [nextFrame_of_few ht hfew] at hc
    rw [hcontents] at hnothing
    exact Except.ok.inj hc ▸ hnothing rfl
  | b₀ :: b₁ :: b₂ :: b₃ :: bytes =>
    rw [nextFrame_eq ht hcontents] at hc
    have hstart : frameStart (b₀ :: b₁ :: b₂ :: b₃ :: bytes) =
        if b₀ ≠ endByte then none
        else if b₁ = 0 then if bytes.length = 0 then none else some (.command b₂ b₃)
        else some (.data b₁) := rfl
    rw [hcontents, hstart] at hnothing
    rw [hstart]
    split_ifs at hc hnothing ⊢ with hend hcmd hfew
    · exact Except.ok.inj hc ▸ hnothing rfl
    · obtain rfl := Except.ok.inj hc
      obtain ⟨b₄, rest, rfl⟩ := List.exists_cons_of_length_pos (Nat.pos_of_ne_zero hfew)
      rw [not_not.mp hend, hcmd] at hcontents
      exact .command ht hcontents
    · split at hc
      · cases hc
      rename_i target htarget
      rw [deliver_of_idle hsend] at hc
      obtain rfl := Except.ok.inj hc
      rw [not_not.mp hend] at hcontents
      exact .data ht hcmd hcontents htarget

/-- **What a call of `recv_from_tunnel` does.** -/
theorem recvFromTunnel_intake (hsend : c.pump.sendingTo = -1 ∨ 1 ≤ c.pump.sendingTo)
    (hc : recvFromTunnel handler env conns c = .ok c') :
    Intake handler env conns c (taking env conns c) c' := by
  unfold recvFromTunnel at hc
  unfold taking
  cases htunnel : lookup c.slots conns 0 with
  | none =>
    rw [htunnel] at hc
    cases hc
  | some tunnel =>
    rw [htunnel] at hc
    dsimp only at hc ⊢
    by_cases hempty : bufEmpty tunnel.conn.inBuf = true
    · rw [if_pos hempty] at hc ⊢
      exact Except.ok.inj hc ▸ .nothing htunnel ((bufEmpty_iff _).mp hempty)
    rw [if_neg hempty] at hc ⊢
    have hne : tunnel.conn.inBuf.length ≠ 0 := fun hzero => hempty ((bufEmpty_iff _).mpr hzero)
    by_cases hidle : c.pump.sendingTo = -1
    · rw [if_neg (not_not_intro hidle)] at hc
      rw [if_pos hidle]
      exact .starts hidle (nextFrame_starts htunnel hidle hc)
    rw [if_pos hidle] at hc
    rw [if_neg hidle]
    obtain ⟨id, hid⟩ : ∃ id : ℕ, c.pump.sendingTo = id :=
      ⟨c.pump.sendingTo.toNat, by have := hsend.resolve_left hidle; omega⟩
    have hpos : 1 ≤ id := by
      have := hsend.resolve_left hidle
      omega
    rw [hid, Int.toNat_natCast] at hc ⊢
    cases htarget : lookup c.slots conns id with
    | none =>
      rw [htarget] at hc
      cases hc
    | some target =>
      rw [htarget] at hc
      dsimp only at hc ⊢
      have hdeliver := deliver_of_busy hid env tunnel target
      rw [show (decodeTo env id tunnel target c).1 =
        (decode env.wild tunnel.conn.inBuf target.conn.outBuf).1 from rfl] at hc hdeliver
      by_cases hend : (decode env.wild tunnel.conn.inBuf target.conn.outBuf).1 = true
      · -- the frame has come to its end, and the next one follows
        rw [if_pos hend] at hc hdeliver
        rw [hdeliver] at hc
        rw [if_pos hend, hend]
        obtain ⟨tunnel', htunnel', hin⟩ := exists_lookup_decodeTo env id target htunnel rfl
        have hstarts := nextFrame_starts (c := c.deliver env id tunnel target) htunnel'
          (if_pos hend) hc
        rw [hin] at hstarts
        exact .ends htunnel hne hpos hid htarget hend hstarts
      · rw [if_neg hend] at hc hdeliver
        rw [hdeliver] at hc
        obtain rfl := Except.ok.inj hc
        rw [if_neg hend, Bool.eq_false_of_not_eq_true hend]
        exact .goesOn htunnel hne hpos hid htarget (Bool.eq_false_of_not_eq_true hend)

end OsTasks.PortForwarding
