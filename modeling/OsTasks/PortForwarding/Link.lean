import OsTasks.PortForwarding.ClientBytes

/-!
# Two endpoints and the stream of bytes between them

The tunnel is a stream of bytes in each direction: what an endpoint reads from its tunnel are the
oldest bytes that its peer has written and that it has not read, any number of them at a time. What
the endpoints take from these bytes are the frames that their peer has appended, so the system with
channels of whole frames is what the endpoints do, and a client and the service get the bytes that
the other one has sent.

## Main definitions

* `Link`: two endpoints with the histories of their sockets.
* `LinkStep`, `LinkRun`: an update that reads what the peer has written, and runs.
* `Channel`: the frames on their way in one direction.
* `Link.Quiet`: nothing is on its way.

## Main results

* `Link.Ok.first`, `Link.Ok.second`: an update keeps the invariant.
* `link_systemRun`: the frames come through as a whole.
* `link_in_order`, `link_quiet`: so do the bytes of the connections.
-/

namespace OsTasks.PortForwarding

/-! ### The system -/

/-- Two endpoints, and what has been moved by their sockets, by client. -/
structure Link where
  system : System
  atA : History := {}
  atB : History := {}

namespace Link

/-- The same, with the endpoints exchanged. -/
def swap (l : Link) : Link := ⟨l.system.swap, l.atB, l.atA⟩

/-- The link after an update of `a`. -/
def after (l : Link) (env : Env) (a' : Controller) : Link where
  system := l.system.after env a'
  atA := l.atA.after Slot.inc env.poll l.system.a.slots
  atB := l.atB

end Link

/-- An update of `a` that reads from the tunnel what `b` has written, in any pieces. It is orderly,
no buffer wraps, and when a frame is taken what has arrived of it does not break off inside an
escaped byte. -/
structure LinkStep (l : Link) (env : Env) (a' : Controller) : Prop where
  update : l.system.updateA env = .ok (a', .none)
  arrived : l.atA.read 0 ++ readAt Slot.inc env.poll l.system.a.slots 0 <+: l.atB.written 0
  orderly : Orderly l.system env a'
  input : ∀ s ∈ l.system.a.slots, s.conn.inBuf.CanStore
  output : ∀ s ∈ a'.slots, s.conn.outBuf.Unwrapped
  whole : ∀ r ∈ pumpEntry env.poll l.system.a, Whole r.1.pump.sendingTo r.1.tunnelInput

/-- The states of the link after any number of such updates of either endpoint. -/
inductive LinkRun : Link → Prop
  | start (envA envB : StartEnv) (bufSizeA bufSizeB : ℕ+) :
      LinkRun { system := .start envA envB bufSizeA bufSizeB }
  | first {l : Link} {env : Env} {a' : Controller} (h : LinkRun l) (hstep : LinkStep l env a') :
      LinkRun (l.after env a')
  | second {l : Link} {env : Env} {b' : Controller} (h : LinkRun l)
      (hstep : LinkStep l.swap env b') : LinkRun (l.swap.after env b').swap

/-! ### One direction -/

/-- The bytes that `b` has appended to its output of the tunnel and `a` has not taken: the input of
`a`, those on their way and the output of `b`. -/
def Link.toCome (l : Link) (flight : List UInt8) : List UInt8 :=
  l.system.a.tunnelInput ++ (flight ++ outputAt Slot.inc l.system.b.slots 0)

/-- The frames from `b` to `a`: they are those of the channel, the bytes that are to come carry
them, and their payload is what has been taken from the connections of `b` and not been given to
those of `a`. -/
structure Carrying (l : Link) (flight : List UInt8) (frames : List Frame) : Prop where
  written : l.atB.written 0 = l.atA.read 0 ++ flight
  packets : frames.map Frame.packet = l.system.toA
  carries : Carries l.system.a.pump.sendingTo (l.toCome flight) frames
  ids : ∀ p ∈ l.system.toA, p.start.id ≠ 0
  payload : ∀ τ, encodedAt Slot.inc l.system.b.trace τ =
    deliveredAt Slot.inc l.system.a.trace τ ++ payloadAt frames τ

/-- The invariant of one direction. -/
def Channel (l : Link) : Prop := ∃ flight frames, Carrying l flight frames

variable {l : Link} {env : Env} {a' : Controller} {flight : List UInt8} {frames : List Frame}

theorem Carrying.valid (h : Carrying l flight frames) : ∀ f ∈ frames, f.event.Valid := by
  intro f hf
  have hid := h.ids f.packet (h.packets ▸ List.mem_map_of_mem hf)
  unfold Frame.packet at hid
  cases hevent : f.event with
  | command => trivial
  | data id payload =>
    rw [hevent] at hid
    exact fun hzero => hid (by rw [hzero]; rfl)

theorem Taking.mem_of_mem_rest {t : Taking} {inbox : List Packet} {p : Packet}
    (hp : p ∈ t.rest inbox) : p ∈ inbox := by
  unfold Taking.rest at hp
  split_ifs at hp
  · exact List.mem_of_mem_tail hp
  · exact hp

theorem Taking.mem_of_mem_left {t : Taking} {inbox : List Packet} {idle : Bool} {p : Packet}
    (hp : p ∈ t.left inbox idle) : p ∈ inbox := by
  refine Taking.mem_of_mem_rest (t := t) ?_
  unfold Taking.left at hp
  split at hp
  · exact hp
  · exact List.mem_of_mem_tail hp
  · split_ifs at hp
    · exact List.mem_of_mem_tail hp
    · exact hp

/-- The bytes that are read from the tunnel, by address and by client. -/
theorem readAt_tunnel {c : Controller} {env : PollEnv} (hwf : WellFormed c) (htunnel : TunnelInv c)
    (hinc : ∀ s ∈ c.slots, s.ref = 0 → s.inc = 0) (hnd : (c.slots.map Slot.inc).Nodup) :
    readAt Slot.ref env c.slots 0 = readAt Slot.inc env c.slots 0 := by
  obtain ⟨s, hs, href, -⟩ := htunnel.entry
  have hbyRef : readAt Slot.ref env c.slots s.ref = (polledBytes env s).1 :=
    heldAt_of_mem hwf.nodup hs
  have hbyInc : readAt Slot.inc env c.slots s.inc = (polledBytes env s).1 := heldAt_of_mem hnd hs
  rw [href] at hbyRef
  rw [hinc s hs href] at hbyInc
  rw [hbyRef, hbyInc]

/-- **Receiving.** The frames that an update of `a` takes are the oldest ones from `b`. -/
theorem Channel.receives (h : Channel l) (hstep : LinkStep l env a')
    (hwf : WellFormed l.system.a) (hbytes : ClientBytes l.system.a l.atA)
    (hnd : (l.system.a.slots.map Slot.inc).Nodup) :
    (env.taking l.system.a).Honest l.system.toA ∧
      (∀ cmd, (env.taking l.system.a).start ≠ some (.command cmd 0)) ∧
      (Concerned l.system env a' → Channel (l.after env a')) := by
  obtain ⟨flight, frames, h⟩ := h
  obtain ⟨flight', hflight⟩ := hstep.arrived
  rw [h.written, List.append_assoc] at hflight
  have hread := List.append_cancel_left hflight
  have htunnel := hbytes.spared.toTunnelInv
  have hcarries : Carries l.system.a.pump.sendingTo (l.system.a.tunnelInput ++
      (readAt Slot.ref env.poll l.system.a.slots 0 ++
        (flight' ++ outputAt Slot.inc l.system.b.slots 0))) frames := by
    rw [readAt_tunnel hwf htunnel hbytes.tunnel hnd, ← List.append_assoc (readAt ..), hread]
    exact h.carries
  obtain ⟨hhonest, frames', events, htakes⟩ := updateFor_takes hwf htunnel hstep.input hstep.update
    hstep.output hstep.whole h.valid hcarries
  have hleft := htakes.left
  rw [h.packets] at hhonest hleft
  refine ⟨hhonest, fun cmd hstart => ?_, fun hconcerned => ⟨flight', frames', ?_, hleft,
    htakes.carries, fun p hp => h.ids p (Taking.mem_of_mem_left hp), fun τ => ?_⟩⟩
  · have hhead := hhonest _ hstart
    obtain ⟨p, hp, hpstart⟩ := Option.map_eq_some_iff.mp hhead
    refine h.ids p (Taking.mem_of_mem_rest (List.mem_of_mem_head? hp)) ?_
    rw [hpstart]
    rfl
  · change l.atB.written 0 = l.atA.read 0 ++ readAt Slot.inc env.poll l.system.a.slots 0 ++ flight'
    rw [h.written, List.append_assoc, hread]
  · have hdelivered := hconcerned.delivered
    rw [newEvents_eq htakes.trace, ← h.packets] at hdelivered
    change encodedAt Slot.inc l.system.b.trace τ = deliveredAt Slot.inc a'.trace τ ++ _
    rw [h.payload, htakes.trace, deliveredAt_append, htakes.payload hdelivered, List.append_assoc]

/-- **Sending.** What an update of `a` appends comes behind the frames that are on their way to
`b`. -/
theorem Channel.sends {events : List PumpEvent} (h : Channel l.swap)
    (hbytes : ClientBytes l.system.a l.atA) (hnd : (l.system.a.slots.map Slot.inc).Nodup)
    (hb : Balanced Slot.inc 0 env.poll l.system.a a' events)
    (hids : ∀ p ∈ sentPackets events, p.start.id ≠ 0) : Channel (l.after env a').swap := by
  obtain ⟨flight, frames, h⟩ := h
  obtain ⟨t, ht, href, -, hdel⟩ := hbytes.spared.entry
  have hinc := hbytes.tunnel t ht href
  have hsame : outputAt Slot.inc (undeleted l.system.a.slots) 0 =
      outputAt Slot.inc l.system.a.slots 0 := by
    unfold outputAt
    rw [← hinc, heldAt_of_mem (nodup_undeleted hnd) (mem_undeleted.mpr ⟨ht, hdel⟩),
      heldAt_of_mem hnd ht]
  have hout := hb.tunnel
  rw [hsame] at hout
  have hevents : l.system.newEvents a' = events := newEvents_eq hb.trace
  have htoB : (l.after env a').swap.system.toA = l.system.toB ++ sentPackets events :=
    congrArg (fun events => l.system.toB ++ sentPackets events) hevents
  refine ⟨flight ++ writtenAt Slot.inc env.poll l.system.a.slots 0, frames ++ sentFrames events, ?_,
    ?_, ?_, ?_, fun τ => ?_⟩
  · change l.atA.written 0 ++ writtenAt Slot.inc env.poll l.system.a.slots 0 = _
    rw [show l.atA.written 0 = _ from h.written, List.append_assoc]
    rfl
  · rw [htoB, List.map_append, map_packet_sentFrames, h.packets]
    rfl
  · have hcarries := h.carries.append (sentFrames events)
    have hbytes : l.swap.toCome flight ++ frameBytes (sentFrames events) =
        (l.after env a').swap.toCome
          (flight ++ writtenAt Slot.inc env.poll l.system.a.slots 0) := by
      change l.system.b.tunnelInput ++ (flight ++ outputAt Slot.inc l.system.a.slots 0) ++
        frameBytes (sentFrames events) = l.system.b.tunnelInput ++
          (flight ++ writtenAt Slot.inc env.poll l.system.a.slots 0 ++ outputAt Slot.inc a'.slots 0)
      rw [List.append_assoc, List.append_assoc, List.append_assoc, show _ ++ _ = _ ++ _ from hout]
    rw [hbytes] at hcarries
    exact hcarries
  · rw [htoB]
    exact List.forall_mem_append.mpr ⟨h.ids, hids⟩
  · change encodedAt Slot.inc a'.trace τ = deliveredAt Slot.inc l.system.b.trace τ ++ _
    rw [hb.trace, encodedAt_append, payloadAt_append, payloadAt_sentFrames, ← List.append_assoc]
    exact congrArg (· ++ _) (h.payload τ)

/-! ### Runs -/

/-- An update of `a`: it takes frames that `b` has sent, and if it takes them for the connections
that they were queued for, it keeps the accounts and both directions. -/
theorem LinkStep.keeps (hstep : LinkStep l env a') (hwf : WellFormed l.system.a)
    (hnd : (l.system.a.slots.map Slot.inc).Nodup) (hbytes : ClientBytes l.system.a l.atA)
    (htoA : Channel l) (htoB : Channel l.swap) :
    Exchange l.system env a' ∧ ((a'.slots.map Slot.inc).Nodup → OpensFew l.system.a a' →
      Concerned l.system env a' → ClientBytes (l.after env a').system.a (l.after env a').atA ∧
        Channel (l.after env a') ∧ Channel (l.after env a').swap) := by
  obtain ⟨hhonest, hother, hreceives⟩ := htoA.receives hstep hwf hbytes hnd
  refine ⟨⟨hhonest, hstep.update⟩, fun hnd' hfew hconcerned => ?_⟩
  obtain ⟨hbytes', events, hb⟩ := hbytes.update hwf hnd hnd' hstep.input hstep.output hfew
    hstep.update hother
  obtain ⟨-, events', htrace, hids⟩ := hbytes.spared.update hwf hstep.update hother
  obtain rfl : events' = events := List.append_cancel_right (htrace.symm.trans hb.trace)
  exact ⟨hbytes', hreceives hconcerned, htoB.sends hbytes hnd hb hids⟩

/-- The invariant of the link. -/
structure Link.Ok (l : Link) : Prop where
  run : SystemRun Orderly l.system
  bytesA : ClientBytes l.system.a l.atA
  bytesB : ClientBytes l.system.b l.atB
  toA : Channel l
  toB : Channel l.swap

/-- **An update of the accepting endpoint** keeps the invariant. -/
theorem Link.Ok.first (h : l.Ok) (hstep : LinkStep l env a') : (l.after env a').Ok := by
  have hserved := h.run.servedOnce
  obtain ⟨hx, hkeeps⟩ := hstep.keeps hserved.wellFormedA hserved.nodup.1 h.bytesA h.toA h.toB
  have hrun : SystemRun Orderly (l.after env a').system := h.run.first hx hstep.orderly
  have hserved' := hrun.servedOnce
  have hfew : OpensFew l.system.a a' := .inl fun τ => by
    have := hserved'.back τ
    change _ + _ + a'.trace.countP _ = 0 at this
    omega
  obtain ⟨hbytes, htoA, htoB⟩ := hkeeps hserved'.nodup.1 hfew
    (h.run.coherent.after hx hstep.orderly).2
  exact ⟨hrun, hbytes, h.bytesB, htoA, htoB⟩

/-- **An update of the connecting endpoint** keeps the invariant. -/
theorem Link.Ok.second {b' : Controller} (h : l.Ok) (hstep : LinkStep l.swap env b') :
    (l.swap.after env b').swap.Ok := by
  have hserved := h.run.servedOnce
  obtain ⟨hx, hkeeps⟩ := hstep.keeps hserved.wellFormedB hserved.nodup.2 h.bytesB h.toB h.toA
  have hrun : SystemRun Orderly (l.swap.after env b').swap.system := h.run.second hx hstep.orderly
  have hserved' := hrun.servedOnce
  have hfew : OpensFew l.swap.system.a b' := .inr ⟨hserved.connecting, fun τ => by
    have := hserved'.once τ
    change _ + _ + b'.trace.countP _ ≤ 1 at this
    omega⟩
  obtain ⟨hbytes, htoB, htoA⟩ := hkeeps hserved'.nodup.2 hfew
    (h.run.coherent.swap.after hx hstep.orderly).2
  exact ⟨hrun, h.bytesA, hbytes, htoA, htoB⟩

theorem link_start (envA envB : StartEnv) (bufSizeA bufSizeB : ℕ+) :
    Link.Ok { system := .start envA envB bufSizeA bufSizeB } := by
  have hempty (env : StartEnv) (bufSize : ℕ+) (accepting : Bool) :
      (startController env bufSize accepting).tunnelInput = [] ∧
        outputAt Slot.inc (startController env bufSize accepting).slots 0 = [] := ⟨rfl, rfl⟩
  refine ⟨.start .., clientBytes_start .., clientBytes_start .., ?_, ?_⟩
  · exact ⟨[], [], rfl, rfl, .idle rfl rfl, by rintro p ⟨⟩, fun _ => rfl⟩
  · exact ⟨[], [], rfl, rfl, .idle rfl rfl, by rintro p ⟨⟩, fun _ => rfl⟩

/-- **The invariant holds in every run.** -/
theorem LinkRun.ok (h : LinkRun l) : l.Ok := by
  induction h with
  | start envA envB bufSizeA bufSizeB => exact link_start envA envB bufSizeA bufSizeB
  | first _ hstep ih => exact ih.first hstep
  | second _ hstep ih => exact ih.second hstep

/-! ### Sample runs -/

/-- What is asked of an update, apart from its result. -/
def Link.Allows (l : Link) (env : Env) (a' : Controller) : Prop :=
  l.atA.read 0 ++ readAt Slot.inc env.poll l.system.a.slots 0 <+: l.atB.written 0 ∧
    Orderly l.system env a' ∧ (∀ s ∈ l.system.a.slots, s.conn.inBuf.CanStore) ∧
      (∀ s ∈ a'.slots, s.conn.outBuf.Unwrapped) ∧
        ∀ r ∈ pumpEntry env.poll l.system.a, Whole r.1.pump.sendingTo r.1.tunnelInput

instance (l : Link) (env : Env) (a' : Controller) : Decidable (l.Allows env a') :=
  inferInstanceAs (Decidable (_ ∧ _ ∧ _ ∧ _ ∧ _))

/-- The link after an update of `a` in an environment, if it is one of a run. -/
def Link.turn (l : Link) (env : Env) : Option Link :=
  match l.system.updateA env with
  | .ok (a', .none) => if l.Allows env a' then some (l.after env a') else none
  | _ => none

/-- The link after updates of `a` and, where it is marked so, of `b`. -/
def Link.play : List (Bool × Env) → Link → Option Link
  | [], l => some l
  | (false, env) :: turns, l => (l.turn env).bind (play turns)
  | (true, env) :: turns, l => (l.swap.turn env).bind fun l => play turns l.swap

theorem Link.exists_of_turn {l' : Link} (h : l.turn env = some l') :
    ∃ a', LinkStep l env a' ∧ l.after env a' = l' := by
  unfold Link.turn at h
  split at h
  · rename_i a' hupdate
    split_ifs at h with hallows
    obtain ⟨harrived, horderly, hinput, houtput, hwhole⟩ := hallows
    exact ⟨a', ⟨hupdate, harrived, horderly, hinput, houtput, hwhole⟩, Option.some.inj h⟩
  · cases h

theorem LinkRun.play {turns : List (Bool × Env)} {l' : Link} (h : LinkRun l)
    (hplay : l.play turns = some l') : LinkRun l' := by
  induction turns generalizing l with
  | nil => exact Option.some.inj hplay ▸ h
  | cons turn turns ih =>
    obtain ⟨second, env⟩ := turn
    cases second with
    | false =>
      obtain ⟨l₁, hturn, hrest⟩ := Option.bind_eq_some_iff.mp hplay
      obtain ⟨a', hstep, rfl⟩ := Link.exists_of_turn hturn
      exact ih (h.first hstep) hrest
    | true =>
      obtain ⟨l₁, hturn, hrest⟩ := Option.bind_eq_some_iff.mp hplay
      obtain ⟨b', hstep, rfl⟩ := Link.exists_of_turn hturn
      exact ih (h.second hstep) hrest

/-- Two endpoints that have been started. -/
def sampleLink : Link := { system := sampleSystem }

/-- The endpoint `a`, or `b`, gets bytes from the tunnel. -/
def getsBytes (second : Bool) (bs : List UInt8) : Bool × Env :=
  (second, ⟨tunnelReads bs, samplePump⟩)

/-- A client connects to `a` and sends two bytes. The frames come to `b` in pieces, and the service
takes one of the bytes and sends another one. -/
def clientSends : List (Bool × Env) :=
  [(false, ⟨clientComes 7, samplePump⟩), writes false, getsBytes true [endByte, 0],
    getsBytes true [cmdNew, 1, endByte], writes true, takesCommand false cmdAck,
    (false, ⟨clientReads [9, endByte], samplePump⟩), writes false, getsBytes true [endByte, 1, 9],
    getsBytes true [escByte, endByte], getsBytes true [endByte],
    (true, ⟨clientServes [5], samplePump⟩), writes true]

/-! ### What comes through -/

/-- **The frames come through.** The endpoints of the link make a run of the system with channels of
whole frames, and the bytes that have been put on the tunnel and have not been taken from it are
those of the frames in the channels. -/
theorem link_systemRun (h : LinkRun l) : SystemRun Orderly l.system ∧
    (∃ flight frames, l.atB.written 0 = l.atA.read 0 ++ flight ∧
      frames.map Frame.packet = l.system.toA ∧
        Carries l.system.a.pump.sendingTo (l.toCome flight) frames) ∧
      ∃ flight frames, l.atA.written 0 = l.atB.read 0 ++ flight ∧
        frames.map Frame.packet = l.system.toB ∧
          Carries l.system.b.pump.sendingTo (l.swap.toCome flight) frames := by
  have hok := h.ok
  obtain ⟨flight, frames, hA⟩ := hok.toA
  obtain ⟨flight', frames', hB⟩ := hok.toB
  exact ⟨hok.run, ⟨flight, frames, hA.written, hA.packets, hA.carries⟩,
    flight', frames', hB.written, hB.packets, hB.carries⟩

/-- The data of the service is on its way. -/
theorem link_systemRun_clientSends : ∃ l, LinkRun l ∧ SystemRun Orderly l.system ∧
    l.system.toA.map Packet.start = [.data 1] ∧
      l.atB.written 0 = l.atA.read 0 ++ dataFrame 1 [5] := by
  have hplay : (sampleLink.play clientSends).map (fun l => (l.system.toA.map Packet.start,
      l.atB.written 0, l.atA.read 0 ++ dataFrame 1 [5])) =
      some ([.data 1], commandFrame cmdAck 1 ++ dataFrame 1 [5],
        commandFrame cmdAck 1 ++ dataFrame 1 [5]) := by decide +kernel
  obtain ⟨l, hl, hbytes⟩ := Option.map_eq_some_iff.mp hplay
  have hrun := LinkRun.play (.start ..) hl
  simp only [Prod.mk.injEq] at hbytes
  exact ⟨l, hrun, (link_systemRun hrun).1, hbytes.1, hbytes.2.1.trans hbytes.2.2.symm⟩

variable {τ : ℕ}

/-- What `b` has read for a client has been written to its connection at `a`, but for what is held
on the way. -/
theorem Carrying.account (h : Carrying l flight frames) (hA : ClientBytes l.system.a l.atA)
    (hB : ClientBytes l.system.b l.atB) (hτ : τ ≠ 0) :
    ∃ unsent unread, Passes [] (l.atB.read τ) (l.atA.written τ)
        (unsent ++ (payloadAt frames τ ++ unread)) ∧
      (∀ s ∈ l.system.a.slots, s.inc = τ → unsent = s.conn.outBuf.contents) ∧
        ∀ t ∈ l.system.b.slots, t.inc = τ → unread = t.conn.inBuf.contents := by
  obtain ⟨unread, hread, hunread⟩ := hB.conserved.input τ hτ
  obtain ⟨unsent, hwritten, hunsent⟩ := hA.conserved.output τ hτ
  have hframes : Passes [] (encodedAt Slot.inc l.system.b.trace τ)
      (deliveredAt Slot.inc l.system.a.trace τ) (payloadAt frames τ) := h.payload τ
  exact ⟨unsent, unread, (hread.serial hframes).serial hwritten, hunsent, hunread⟩

theorem Channel.in_order (h : Channel l) (hA : ClientBytes l.system.a l.atA)
    (hB : ClientBytes l.system.b l.atB) (hτ : τ ≠ 0) : l.atA.written τ <+: l.atB.read τ := by
  obtain ⟨flight, frames, h⟩ := h
  obtain ⟨unsent, unread, hpasses, -⟩ := h.account hA hB hτ
  exact hpasses.initial

/-- **The bytes of a client come through in order.** In every run, what has been written to the
connection to the service is the start of what the client has sent, and the other way round. -/
theorem link_in_order (h : LinkRun l) (hτ : τ ≠ 0) :
    l.atB.written τ <+: l.atA.read τ ∧ l.atA.written τ <+: l.atB.read τ :=
  have hok := h.ok
  ⟨hok.toB.in_order hok.bytesB hok.bytesA hτ, hok.toA.in_order hok.bytesA hok.bytesB hτ⟩

/-- One of the two bytes of the client has been written to the service. -/
theorem link_in_order_clientSends : ∃ l, LinkRun l ∧ l.atA.read 1 = [9, endByte] ∧
    l.atB.written 1 = [9] ∧ l.atB.written 1 <+: l.atA.read 1 := by
  have hplay : (sampleLink.play clientSends).map (fun l => (l.atA.read 1, l.atB.written 1)) =
      some ([9, endByte], [9]) := by decide +kernel
  obtain ⟨l, hl, hbytes⟩ := Option.map_eq_some_iff.mp hplay
  have hrun := LinkRun.play (.start ..) hl
  simp only [Prod.mk.injEq] at hbytes
  exact ⟨l, hrun, hbytes.1, hbytes.2, (link_in_order hrun Nat.one_ne_zero).1⟩

/-- Nothing is on its way from `b` to `a`. -/
structure Link.Quiet (l : Link) : Prop where
  arrived : l.atA.read 0 = l.atB.written 0
  input : l.system.a.tunnelInput = []
  output : outputAt Slot.inc l.system.b.slots 0 = []

instance (l : Link) : Decidable l.Quiet :=
  decidable_of_iff (_ ∧ _ ∧ _) ⟨fun h => ⟨h.1, h.2.1, h.2.2⟩, fun h => ⟨h.1, h.2, h.3⟩⟩

theorem Carries.of_nil {sendingTo : ℤ} (h : Carries sendingTo [] frames) :
    sendingTo = -1 ∧ frames = [] := by
  rcases h with ⟨hsend, hnil⟩ | ⟨id, payload, tag, rest, -, -, hnil⟩
  · refine ⟨hsend, ?_⟩
    cases frames with
    | nil => rfl
    | cons f frames =>
      obtain ⟨event, tag⟩ := f
      cases event <;> cases hnil
  · exact absurd hnil.symm (List.append_ne_nil_of_right_ne_nil _ (List.cons_ne_nil _ _))

/-- With nothing on the way, no frame is. -/
theorem Carrying.nil_of_quiet (h : Carrying l flight frames) (hquiet : l.Quiet) :
    l.system.a.pump.sendingTo = -1 ∧ frames = [] := by
  have hflight : flight = [] := by
    have hwritten := h.written
    rw [hquiet.arrived] at hwritten
    exact List.append_right_eq_self.mp hwritten.symm
  have hcarries := h.carries
  unfold Link.toCome at hcarries
  rw [hquiet.input, hflight, hquiet.output] at hcarries
  exact hcarries.of_nil

theorem Channel.quiet (h : Channel l) (hA : ClientBytes l.system.a l.atA)
    (hB : ClientBytes l.system.b l.atB) (hquiet : l.Quiet) :
    l.system.toA = [] ∧ l.system.a.pump.sendingTo = -1 ∧
      ∀ s ∈ l.system.a.slots, ∀ t ∈ l.system.b.slots, s.inc = t.inc → s.inc ≠ 0 →
        l.atB.read s.inc =
          l.atA.written s.inc ++ (s.conn.outBuf.contents ++ t.conn.inBuf.contents) := by
  obtain ⟨flight, frames, h⟩ := h
  obtain ⟨hsend, rfl⟩ := h.nil_of_quiet hquiet
  refine ⟨h.packets.symm, hsend, fun s hs t ht hinc hne => ?_⟩
  obtain ⟨unsent, unread, hpasses, hunsent, hunread⟩ := h.account hA hB hne
  rw [hunsent s hs rfl, hunread t ht hinc.symm] at hpasses
  exact hpasses

/-- **Nothing is lost.** When nothing is on its way on the tunnel, no frame is in progress, and of
what the client of a pair of connections has sent, the service has got all but what is unread at the
one endpoint and unsent at the other. The same goes for what the service has sent. -/
theorem link_quiet (h : LinkRun l) :
    (l.swap.Quiet → l.system.toB = [] ∧ l.system.b.pump.sendingTo = -1 ∧
      ∀ t ∈ l.system.b.slots, ∀ s ∈ l.system.a.slots, t.inc = s.inc → t.inc ≠ 0 →
        l.atA.read t.inc =
          l.atB.written t.inc ++ (t.conn.outBuf.contents ++ s.conn.inBuf.contents)) ∧
      (l.Quiet → l.system.toA = [] ∧ l.system.a.pump.sendingTo = -1 ∧
        ∀ s ∈ l.system.a.slots, ∀ t ∈ l.system.b.slots, s.inc = t.inc → s.inc ≠ 0 →
          l.atB.read s.inc =
            l.atA.written s.inc ++ (s.conn.outBuf.contents ++ t.conn.inBuf.contents)) :=
  have hok := h.ok
  ⟨hok.toB.quiet hok.bytesB hok.bytesA, hok.toA.quiet hok.bytesA hok.bytesB⟩

/-- The frames of the client have all been taken, and its second byte is unsent. -/
theorem link_quiet_clientSends : ∃ l, LinkRun l ∧ l.swap.Quiet ∧ l.system.toB = [] ∧
    l.system.b.pump.sendingTo = -1 ∧ l.atA.read 1 = l.atB.written 1 ++ [endByte] := by
  have hplay : (sampleLink.play clientSends).map (fun l => (decide l.swap.Quiet,
      l.atA.read 1, l.atB.written 1)) = some (true, [9, endByte], [9]) := by decide +kernel
  obtain ⟨l, hl, hbytes⟩ := Option.map_eq_some_iff.mp hplay
  have hrun := LinkRun.play (.start ..) hl
  simp only [Prod.mk.injEq, decide_eq_true_eq] at hbytes
  obtain ⟨hquiet, hread, hwritten⟩ := hbytes
  obtain ⟨hempty, hsend, -⟩ := (link_quiet hrun).1 hquiet
  exact ⟨l, hrun, hquiet, hempty, hsend, by rw [hread, hwritten]; rfl⟩

end OsTasks.PortForwarding
