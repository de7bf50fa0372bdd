import OsTasks.PortForwarding.FramesInFlight
import OsTasks.PortForwarding.Progress

/-!
# Frames that arrive

In an orderly system the oldest frame in flight concerns the connection that has its id: a command
is handled for this connection, payload is delivered to it, and it is there when there is payload
for it.

## Main definitions

* `Busy`: the frame in progress is the oldest one in the channel.
* `Arrived`: what receiving has done to an endpoint.

## Main results

* `onCommand_arrived`, `deliver_arrived`: a command, and payload.
* `nextFrame_arrived`, `recvFromTunnel_arrived`: the next frame, and all that an update takes.
-/

namespace OsTasks.PortForwarding

open ReusedIds

variable {T : ℕ → ℕ} {s : System} {conns : Conns} {c : Controller} {rest : List Packet}

/-! ### What receiving leaves alone -/

/-- Bytes that move between buffers are not seen in the world. -/
theorem world_moved {id : ℤ} (hmoved : SlotsMoved id s.a.slots c.slots)
    (hqueue : c.pump.cmdQueue = s.a.pump.cmdQueue) : { s with a := c }.world = s.world :=
  world_congr hmoved.entries (by unfold inFlight; rw [hqueue])

/-- The oldest frame in flight is the oldest message. -/
theorem world_into {p : Packet} (hinbox : s.toA = p :: rest) :
    s.world.into = p.message :: inFlight rest s.b := by
  unfold System.world
  rw [hinbox]
  rfl

/-! ### A command -/

theorem entry_commandChange {cmd : UInt8} (hcmd : cmd ≠ cmdClose) (t : Slot) :
    Slot.entry { t with conn := commandChange cmd t.conn } = t.entry := by
  unfold commandChange
  rw [if_neg hcmd]
  split_ifs <;> rfl

/-- An answer is behind everything in flight, or it is lost. -/
theorem inFlight_sendOrWarn (c : Controller) (command : Command) (channel : List Packet) :
    ∃ reply, (reply = [] ∨ reply = [command.packet.message]) ∧
      inFlight channel (sendOrWarn c command) = inFlight channel c ++ reply := by
  unfold sendOrWarn sendCommand
  cases hq : cmdqEnqueue c.pump.cmdQueue command with
  | none => exact ⟨[], .inl rfl, (List.append_nil _).symm⟩
  | some q => exact ⟨_, .inr rfl, inFlight_enqueue hq channel⟩

/-- A command for a connection that is there. -/
theorem settled_command_some {cmd arg : UInt8} {tag : ℕ} {t : Slot} (env : ConnectEnv)
    (h : Settled T s.world) (hwf : WellFormed s.a)
    (hinbox : s.toA = ⟨.command cmd arg, tag⟩ :: rest)
    (htarget : commandTarget s.a ⟨cmd, arg, tag⟩ = some t) :
    t.inc = tag ∧
      Settled T { s with a := onCommand env s.a ⟨cmd, arg, tag⟩, toA := rest }.world := by
  obtain ⟨ht, hid⟩ := commandTarget_eq_some htarget
  have hidt : t.entry.id = some arg.toNat := entry_id.mpr hid
  have hinto := world_into hinbox
  have hmem : t.entry ∈ s.world.mine := List.mem_map_of_mem ht
  refine ⟨h.tag_eq hinto hmem hidt, ?_⟩
  obtain ⟨l₁, l₂, hl, hmod⟩ := modifyConn_eq_append hwf.nodup ht (commandChange cmd)
  have hmine := world_mine hl
  have hworld : { s with a := onCommand env s.a ⟨cmd, arg, tag⟩, toA := rest }.world =
      { s.world with
        mine := l₁.map Slot.entry ++
          Slot.entry { t with conn := commandChange cmd t.conn } :: l₂.map Slot.entry
        into := inFlight rest s.b } := by
    rw [onCommand_of_some htarget]
    unfold System.world
    dsimp only
    change World.mk ((modifyConn s.a.slots t.ref (commandChange cmd)).map _) _ _ _ = _
    rw [hmod, List.map_append, List.map_cons]
    rfl
  rw [hworld]
  by_cases hclose : cmd = cmdClose
  · subst hclose
    exact h.closed hinto rfl hmine hidt
  · rw [entry_commandChange hclose, ← hmine]
    refine h.take hinto fun hkind => ?_
    exact h.opening _ (hinto ▸ List.mem_cons_self) hkind _ hmem hidt

theorem commandKind_ne_opens {cmd : UInt8} (hcmd : cmd ≠ cmdNew) : commandKind cmd ≠ .opens := by
  unfold commandKind
  rw [if_neg hcmd]
  split_ifs <;> exact fun h => nomatch h

theorem commandTarget_eq_none {command : Command} (h : commandTarget c command = none) :
    ∀ t ∈ c.slots, t.conn.id ≠ command.arg.toNat := by
  intro t ht
  simpa using List.find?_eq_none.mp h t ht

theorem FreshServer.entry {m : Manager} {arg : UInt8} {tag : ℕ} {t : Slot}
    (h : FreshServer m arg.toNat tag t) : t.entry = ⟨some arg.toNat, tag, false, false⟩ := by
  unfold Slot.entry
  rw [h.id, h.inc, h.state, if_pos (Int.natCast_nonneg _)]
  rfl

/-- `CMD_NEW` for an id that no connection has opens a connection, or refuses to. -/
theorem settled_new {arg : UInt8} {tag : ℕ} (env : ConnectEnv) (h : Settled T s.world)
    (hinbox : s.toA = ⟨.command cmdNew arg, tag⟩ :: rest)
    (htarget : commandTarget s.a ⟨cmdNew, arg, tag⟩ = none) :
    ∃ opened, (onCommand env s.a ⟨cmdNew, arg, tag⟩).trace =
        .handled ⟨cmdNew, arg, tag⟩ none s.a.freeIds opened :: s.a.trace ∧
      (Permits s.toA (.handled ⟨cmdNew, arg, tag⟩ none s.a.freeIds opened) →
        Settled T { s with a := onCommand env s.a ⟨cmdNew, arg, tag⟩, toA := rest }.world) := by
  have hinto := world_into hinbox
  have hmine : ∀ e ∈ s.world.mine, e.id ≠ some arg.toNat := by
    intro e he hid
    obtain ⟨t, ht, rfl⟩ := List.mem_map.mp he
    exact commandTarget_eq_none htarget t ht (entry_id.mp hid)
  rw [onCommand_new htarget rfl]
  generalize hr : cmConnect env s.a.manager s.a.bufSize s.a.bufSize (arg.toNat : ℤ) tag = r
  let c : Controller :=
    { s.a.note (.handled ⟨cmdNew, arg, tag⟩ none s.a.freeIds r.1) with manager := r.2 }
  let answer : Command := ⟨if r.1 then cmdAck else cmdClose, arg, tag⟩
  obtain ⟨q, hq⟩ := sendOrWarn_eq c answer
  obtain ⟨reply, hreply, hout⟩ := inFlight_sendOrWarn c answer s.toB
  have hworld : { s with a := sendOrWarn c answer, toA := rest }.world =
      { s.world with
        mine := r.2.slots.map Slot.entry
        out := s.world.out ++ reply
        into := inFlight rest s.b } := by
    unfold System.world
    dsimp only
    rw [hout, hq]
    rfl
  refine ⟨r.1, congrArg Controller.trace hq, fun hpermits => ?_⟩
  rw [hworld]
  rcases hr ▸ cmConnect_slots env s.a.manager s.a.bufSize s.a.bufSize (arg.toNat : ℤ) tag with
    ⟨hfailed, hslots, -⟩ | ⟨hopened, t, hslots, hfresh, -⟩
  · have hanswer : answer.packet.message = ⟨.closes, arg.toNat, tag⟩ := by
      simp only [answer, hfailed]
      rfl
    rw [hslots]
    refine h.refused hinto rfl hmine (hreply.imp_right fun heq => heq.trans (by rw [hanswer]; rfl))
      fun m hm hkind hid => ?_
    obtain ⟨p, hp, hdata⟩ := exists_of_data hm hkind
    exact hpermits arg.toNat (by rw [hfailed]; rfl) p (hinbox ▸ List.mem_cons_of_mem _ hp)
      (hdata.trans (congrArg some hid))
  · have hanswer : answer.packet.message = ⟨.other, arg.toNat, tag⟩ := by
      simp only [answer, hopened]
      rfl
    rw [hslots, List.map_append, List.map_singleton, hfresh.entry]
    exact h.opened hinto rfl hmine (hreply.imp_right fun heq => heq.trans (by rw [hanswer]; rfl))

/-- **A command that arrives** is handled for the connection it was queued for, and keeps the
invariant if what it leads to is permitted. -/
theorem onCommand_arrived {cmd arg : UInt8} {tag : ℕ} (env : ConnectEnv) (h : Settled T s.world)
    (hwf : WellFormed s.a) (hinbox : s.toA = ⟨.command cmd arg, tag⟩ :: rest) :
    ∃ target opened, (onCommand env s.a ⟨cmd, arg, tag⟩).trace =
        .handled ⟨cmd, arg, tag⟩ target s.a.freeIds opened :: s.a.trace ∧
      (∀ t ∈ target, t.inc = tag) ∧
      (Permits s.toA (.handled ⟨cmd, arg, tag⟩ target s.a.freeIds opened) →
        Settled T { s with a := onCommand env s.a ⟨cmd, arg, tag⟩, toA := rest }.world) := by
  cases htarget : commandTarget s.a ⟨cmd, arg, tag⟩ with
  | some t =>
    obtain ⟨htag, hsettled⟩ := settled_command_some env h hwf hinbox htarget
    refine ⟨some t, false, ?_, fun u hu => Option.some.inj hu ▸ htag, fun _ => hsettled⟩
    rw [onCommand_of_some htarget]
    rfl
  | none =>
    by_cases hnew : cmd = cmdNew
    · subst hnew
      obtain ⟨opened, htrace, hsettled⟩ := settled_new env h hinbox htarget
      exact ⟨none, opened, htrace, fun _ hu => absurd hu (Option.not_mem_none _), hsettled⟩
    · refine ⟨none, false, ?_, fun _ hu => absurd hu (Option.not_mem_none _), fun _ => ?_⟩
      · rw [onCommand_of_none htarget hnew]
        rfl
      · rw [onCommand_of_none htarget hnew]
        exact h.take (world_into hinbox) (commandKind_ne_opens hnew)

/-! ### Payload -/

theorem sendingTo_deliver (c : Controller) (env : PumpEnv) (id : ℕ) (tunnel target : Slot) :
    (c.deliver env id tunnel target).pump.sendingTo = -1 ∨
      (c.deliver env id tunnel target).pump.sendingTo = id := by
  cases hend : (decodeTo env id tunnel target c).1 with
  | false => exact .inr (if_neg (hend ▸ Bool.false_ne_true))
  | true => exact .inl (if_pos hend)

theorem message_data {id : UInt8} {p : Packet} (hp : p.start = .data id) :
    p.message = ⟨.data, id.toNat, p.tag⟩ := by
  unfold Packet.message
  rw [hp]
  rfl

/-- **Payload that arrives** is delivered to the connection it was encoded for. -/
theorem deliver_arrived {id : UInt8} {p : Packet} {target : Slot} (h : Settled T s.world)
    (hwf : WellFormed s.a) (hconns : ConnsOk conns s.a.slots) (hinbox : s.toA = p :: rest)
    (hp : p.start = .data id) (htarget : lookup s.a.slots conns id.toNat = some target)
    (env : PumpEnv) (tunnel : Slot) :
    target.inc = p.tag ∧
      { s with a := s.a.deliver env id.toNat tunnel target }.world = s.world ∧
      Settled T { s with a := s.a.deliver env id.toNat tunnel target, toA := rest }.world := by
  obtain ⟨hlast, hdel⟩ := (hconns.lookup_iff hwf.nodup).mp htarget
  obtain ⟨hmem, hid⟩ := mem_of_lastWithId hlast
  have hinto := world_into hinbox
  have hmsg := message_data hp
  have hmoved := slotsMoved_deliver hwf.nodup env id.toNat tunnel hmem
  have hworld : { s with a := s.a.deliver env id.toNat tunnel target }.world = s.world :=
    world_moved hmoved rfl
  refine ⟨h.tag_eq hinto (List.mem_map_of_mem hmem) ?_, hworld, ?_⟩
  · rw [hmsg]
    exact entry_id.mpr hid
  · have htaken := h.take hinto (by rw [hmsg]; exact fun hkind => nomatch hkind)
    rw [← hworld] at htaken
    exact htaken

/-- **Payload that arrives** is for a connection that is there. -/
theorem exists_target {id : UInt8} {p : Packet} (h : Settled T s.world) (hwf : WellFormed s.a)
    (hconns : ConnsOk conns s.a.slots) (hinbox : s.toA = p :: rest) (hp : p.start = .data id) :
    ∃ target, lookup s.a.slots conns id.toNat = some target := by
  have hmsg := message_data hp
  have hlists := h.lists_of_data (world_into hinbox) (by rw [hmsg])
  rw [hmsg] at hlists
  obtain ⟨t, ht, hid, hopen⟩ := lists_entries.mp hlists
  cases hlast : lastWithId id.toNat s.a.slots with
  | none => exact absurd hid (lastWithId_eq_none_iff.mp hlast t ht)
  | some u =>
    obtain ⟨hu, hidu⟩ := mem_of_lastWithId hlast
    -- no other connection has the id
    obtain ⟨l₁, l₂, hl⟩ := List.append_of_mem ht
    have hdistinct := h.out.distinct
    rw [world_mine hl] at hdistinct
    have hut : u = t := by
      rw [hl, List.mem_append, List.mem_cons] at hu
      by_contra hne
      refine id_ne_of_distinct hdistinct (entry_id.mpr hid) (f := u.entry) ?_ (entry_id.mpr hidu)
      exact hu.imp List.mem_map_of_mem fun hu => List.mem_map_of_mem (hu.resolve_left hne)
    subst hut
    exact ⟨u, (hconns.lookup_iff hwf.nodup).mpr ⟨hlast, hopen⟩⟩

/-! ### The trace -/

theorem trace_onCommand (env : ConnectEnv) (c : Controller) (command : Command) :
    c.trace <:+ (onCommand env c command).trace := by
  obtain ⟨opened, heff⟩ := onCommand_effect env c command
  rw [heff.trace]
  exact List.suffix_cons _ _

theorem trace_decodeTo (env : PumpEnv) (id : ℕ) (tunnel target : Slot) (c : Controller) :
    c.trace <:+ (decodeTo env id tunnel target c).2.trace := List.suffix_cons _ _

section Traces

variable {handler : Controller → Command → Controller} {env : PumpEnv} {c' : Controller}
  (hhandler : ∀ c command, c.trace <:+ (handler c command).trace)

include hhandler

theorem nextFrame_trace (hc : nextFrame handler env conns c = .ok c') : c.trace <:+ c'.trace := by
  unfold nextFrame at hc
  split at hc
  · cases hc
  dsimp only at hc
  split_ifs at hc
  · exact Except.ok.inj hc ▸ List.suffix_refl _
  · obtain rfl := Except.ok.inj hc
    refine List.IsSuffix.trans ?_ (hhandler _ _)
    exact List.suffix_cons _ _
  · split at hc
    · cases hc
    · obtain rfl := Except.ok.inj hc
      split_ifs <;> exact trace_decodeTo ..
  · exact Except.ok.inj hc ▸ List.suffix_refl _

/-- Receiving adds to the trace. -/
theorem recvFromTunnel_trace (hc : recvFromTunnel handler env conns c = .ok c') :
    c.trace <:+ c'.trace := by
  unfold recvFromTunnel at hc
  split at hc
  · cases hc
  rename_i tunnel _
  split_ifs at hc
  · exact Except.ok.inj hc ▸ List.suffix_refl _
  · split at hc
    · cases hc
    rename_i target _
    have hdecode := trace_decodeTo env c.pump.sendingTo.toNat tunnel target c
    dsimp only at hc
    split_ifs at hc
    · have hnext := nextFrame_trace hhandler hc
      exact hdecode.trans hnext
    · exact Except.ok.inj hc ▸ hdecode
  · exact nextFrame_trace hhandler hc

end Traces

/-! ### Receiving -/

/-- The frame in progress is the oldest one in the channel. -/
def Busy (c : Controller) (inbox : List Packet) : Prop :=
  c.pump.sendingTo = -1 ∨
    ∃ p rest id, inbox = p :: rest ∧ p.start = .data id ∧ c.pump.sendingTo = id.toNat

/-- What receiving has done to `a`, when it has taken `t`. -/
structure Arrived (T : ℕ → ℕ) (conns : Conns) (s : System) (t : Taking) (c : Controller)
    (events : List PumpEvent) : Prop where
  trace : c.trace = events ++ s.a.trace
  packets : sentPackets events = []
  encodes : ∀ e ∈ events, e.encodes = none
  delivered : deliveredTags events = t.dataTags s.toA
  handled : ∀ e ∈ events, e.Concerns (t.tag s.toA)
  wellFormed : WellFormed c
  entries : EntriesAt conns c.slots
  busy : Busy c (t.left s.toA (c.pump.sendingTo = -1))
  settled : (∀ e ∈ events, Permits s.toA e) →
    Settled T { s with a := c, toA := t.left s.toA (c.pump.sendingTo = -1) }.world

variable (h : Settled T s.world) (hwf : WellFormed s.a) (hconns : ConnsOk conns s.a.slots)

include h hwf hconns

/-- Nothing is taken. -/
theorem arrived_nothing (hbusy : Busy s.a s.toA) : Arrived T conns s {} s.a [] where
  trace := rfl
  packets := rfl
  encodes _ he := absurd he List.not_mem_nil
  delivered := rfl
  handled _ he := absurd he List.not_mem_nil
  wellFormed := hwf
  entries := hconns.entriesAt
  busy := hbusy
  settled _ := h

/-- A command frame is taken and handled. -/
theorem arrived_command {cmd arg : UInt8} {tag : ℕ} (env : ConnectEnv) (tunnel : Slot)
    (hsend : s.a.pump.sendingTo = -1) (hinbox : s.toA = ⟨.command cmd arg, tag⟩ :: rest) :
    ∃ events, Arrived T conns s { start := some (.command cmd arg) }
      (s.a.handleFrame (onTaggedCommand tag env) tunnel cmd arg) events := by
  let c₁ := (s.a.modify tunnel.ref fun conn =>
    { conn with inBuf := bufAdvanceReadPtr tunnel.conn.inBuf 3 }).note (.received cmd arg)
  have hmoved₁ := slotsMoved_inBuf 0 s.a.slots tunnel.ref
    fun _ => bufAdvanceReadPtr tunnel.conn.inBuf 3
  have hwf₁ : WellFormed c₁ := hwf.moved hmoved₁ rfl rfl hwf.sendingTo
  have hworld₁ : { s with a := c₁ }.world = s.world := world_moved hmoved₁ rfl
  obtain ⟨target, opened, htrace, htag, hsettled⟩ :=
    onCommand_arrived (s := { s with a := c₁ }) env (hworld₁.symm ▸ h) hwf₁ hinbox
  let c₂ := onCommand env c₁ ⟨cmd, arg, tag⟩
  have hmoved₂ := slotsMoved_inBuf 0 c₂.slots tunnel.ref fun buf => bufAdvanceReadPtr buf 2
  have hwf₂ : WellFormed c₂ := hwf₁.onCommand env _
  have hsend₂ : c₂.pump.sendingTo = -1 := by
    obtain ⟨_, heff⟩ := onCommand_effect env c₁ ⟨cmd, arg, tag⟩
    exact heff.sendingTo.trans hsend
  have hleft (b : Bool) : Taking.left { start := some (.command cmd arg) } s.toA b = rest := by
    rw [hinbox]
    rfl
  refine ⟨[.handled ⟨cmd, arg, tag⟩ target c₁.freeIds opened, .received cmd arg], ?_⟩
  exact
    { trace := htrace
      packets := rfl
      encodes := fun e he => by
        simp only [List.mem_cons, List.not_mem_nil, or_false] at he
        rcases he with rfl | rfl <;> rfl
      delivered := rfl
      handled := fun e he => by
        rw [List.mem_pair] at he
        rcases he with rfl | rfl
        · cases target with
          | none => exact trivial
          | some u =>
            rw [hinbox]
            exact htag u rfl
        · exact trivial
      wellFormed := hwf₂.moved hmoved₂ rfl rfl hwf₂.sendingTo
      entries := ((hconns.entriesAt.moved hmoved₁).onCommand env _).moved hmoved₂
      busy := .inl hsend₂
      settled := fun hpermits => by
        rw [hleft]
        have hworld₂ := world_moved (s := { s with a := c₂, toA := rest }) hmoved₂
          (c := c₂.modify tunnel.ref fun conn =>
            { conn with inBuf := bufAdvanceReadPtr conn.inBuf 2 }) rfl
        exact hworld₂ ▸ hsettled (hpermits _ List.mem_cons_self) }

/-- Bytes of a data frame are delivered. -/
theorem arrived_data {id : UInt8} {p : Packet} {target : Slot} {t : Taking} (env : PumpEnv)
    (tunnel : Slot) (hid : id ≠ 0) (hsend : s.a.pump.sendingTo = -1 ∨ s.a.pump.sendingTo = id.toNat)
    (hinbox : s.toA = p :: rest) (hp : p.start = .data id)
    (htarget : lookup s.a.slots conns id.toNat = some target)
    (htags : t.dataTags s.toA = [p.tag])
    (hleft : t.left s.toA ((s.a.deliver env id.toNat tunnel target).pump.sendingTo = -1) =
      if (s.a.deliver env id.toNat tunnel target).pump.sendingTo = -1 then rest else s.toA) :
    ∃ bytes, Arrived T conns s t (s.a.deliver env id.toNat tunnel target)
      [.delivered id.toNat 0 target bytes] := by
  obtain ⟨hlast, hdel⟩ := (hconns.lookup_iff hwf.nodup).mp htarget
  obtain ⟨htag, hworld, htaken⟩ := deliver_arrived h hwf hconns hinbox hp htarget env tunnel
  have hpos : 1 ≤ id.toNat := by
    rw [Nat.one_le_iff_ne_zero]
    exact fun hzero => hid (UInt8.toNat_inj.mp hzero)
  refine ⟨(decode env.wild tunnel.conn.inBuf target.conn.outBuf).2.2.contents.drop
    target.conn.outBuf.length, ?_⟩
  exact
    { trace := rfl
      packets := rfl
      encodes := fun e he => by
        rw [List.mem_singleton.mp he]
        rfl
      delivered := by
        rw [htags, ← htag]
        rfl
      handled := fun e he => by
        rw [List.mem_singleton.mp he]
        exact trivial
      wellFormed := (Step.deliver env tunnel hpos hlast hdel hsend).wellFormed hwf
      entries := hconns.entriesAt.moved
        (slotsMoved_deliver hwf.nodup env id.toNat tunnel (mem_of_lastWithId hlast).1)
      busy := by
        rw [hleft]
        split_ifs with hidle
        · exact .inl hidle
        · exact .inr ⟨p, rest, id, hinbox, hp, (sendingTo_deliver ..).resolve_left hidle⟩
      settled := fun _ => by
        rw [hleft]
        split_ifs
        · exact htaken
        · exact hworld ▸ h }

omit h hwf hconns in
/-- The next frame of the tunnel is the oldest one in flight. -/
theorem Taking.Honest.exists_cons {t : Taking} {inbox : List Packet} (hhonest : t.Honest inbox)
    {start : FrameStart} (hstart : t.start = some start) :
    ∃ rest, t.rest inbox = ⟨start, t.tag inbox⟩ :: rest := by
  have hhead := hhonest start hstart
  unfold Taking.tag
  cases hrest : t.rest inbox with
  | nil =>
    rw [hrest] at hhead
    exact absurd hhead.symm (Option.some_ne_none start)
  | cons p rest =>
    rw [hrest] at hhead
    obtain rfl := Option.some.inj hhead
    exact ⟨rest, rfl⟩

/-- **The next frame.** It is there for a connection that it concerns. -/
theorem nextFrame_arrived (env : PumpEnv) {tunnel : Slot} {t : Taking}
    (hsend : s.a.pump.sendingTo = -1) (htunnel : lookup s.a.slots conns 0 = some tunnel)
    (ht : t = { start := frameStart tunnel.conn.inBuf.contents }) (hhonest : t.Honest s.toA) :
    nextFrame (onTaggedCommand (t.tag s.toA) env.connect) env conns s.a ≠ .error .closedConnection ∧
      ∀ c, nextFrame (onTaggedCommand (t.tag s.toA) env.connect) env conns s.a = .ok c →
        ∃ events, Arrived T conns s t c events := by
  generalize hresult : nextFrame (onTaggedCommand (t.tag s.toA) env.connect) env conns s.a = r
  have hnothing (hnone : frameStart tunnel.conn.inBuf.contents = none) :
      Arrived T conns s t s.a [] := by
    rw [ht, hnone]
    exact arrived_nothing h hwf hconns (.inl hsend)
  have hok {c' : Controller} {events : List PumpEvent} (harrived : Arrived T conns s t c' events) :
      Except.ok c' ≠ .error Fault.closedConnection ∧
        ∀ c, Except.ok c' = (.ok c : Except Fault Controller) →
          ∃ events, Arrived T conns s t c events :=
    ⟨fun he => (nomatch he), fun c hc => ⟨events, Except.ok.inj hc ▸ harrived⟩⟩
  match hcontents : tunnel.conn.inBuf.contents with
  | [] | [_] | [_, _] | [_, _, _] =>
    have hfew : tunnel.conn.inBuf.length ≤ 3 := by
      rw [← RoundBuffer.length_contents, hcontents]
      simp
    rw [nextFrame_of_few htunnel hfew] at hresult
    subst hresult
    exact hok (hnothing (by rw [hcontents]; rfl))
  | b₀ :: b₁ :: b₂ :: b₃ :: bytes =>
    rw [nextFrame_eq htunnel hcontents] at hresult
    have hstart : t.start = if b₀ ≠ endByte then none
        else if b₁ = 0 then if bytes.length = 0 then none else some (.command b₂ b₃)
        else some (.data b₁) := by
      rw [ht, hcontents]
      rfl
    have hstart' : frameStart tunnel.conn.inBuf.contents = t.start := by rw [ht]
    have hrest : t.rest s.toA = s.toA := by
      rw [ht]
      rfl
    rw [hstart'] at hnothing ht
    split_ifs at hresult hstart with hend hcmd hlen
    · subst hresult
      exact ⟨fun he => (nomatch he), fun c hc => (nomatch hc)⟩
    · subst hresult
      exact hok (hnothing hstart)
    · subst hresult
      obtain ⟨rest, hinbox⟩ := hhonest.exists_cons hstart
      rw [hrest] at hinbox
      obtain ⟨events, harrived⟩ := arrived_command h hwf hconns env.connect tunnel hsend hinbox
      have ht' : t = { start := some (.command b₂ b₃) } := ht.trans (by rw [hstart])
      rw [← ht'] at harrived
      exact hok harrived
    · obtain ⟨rest, hinbox⟩ := hhonest.exists_cons hstart
      rw [hrest] at hinbox
      obtain ⟨target, htarget⟩ := exists_target h hwf hconns hinbox rfl
      rw [htarget] at hresult
      dsimp only at hresult
      rw [deliver_of_idle hsend] at hresult
      subst hresult
      have ht' : t = { start := some (.data b₁) } := ht.trans (by rw [hstart])
      obtain ⟨bytes, harrived⟩ := arrived_data (t := t) h hwf hconns env tunnel.afterStart hcmd
        (.inl hsend) hinbox rfl htarget (by rw [ht']; rfl)
        (by rw [ht', Taking.left, Taking.rest, hinbox]; simp)
      exact hok harrived

omit h hwf hconns in
/-- A data frame has come to its end, and the next frame is taken. -/
theorem Arrived.after_data {p : Packet} {c₁ : Controller} {start : Option FrameStart} {id : ℕ}
    {target : Slot} {bytes : List UInt8} {events : List PumpEvent}
    (harrived : Arrived T conns { s with a := c₁, toA := rest } { start := start } c events)
    (hinbox : s.toA = p :: rest) (htag : target.inc = p.tag)
    (htrace : c₁.trace = .delivered id 0 target bytes :: s.a.trace) :
    Arrived T conns s { resumed := some true, start := start } c
      (events ++ [.delivered id 0 target bytes]) := by
  have hleft (b : Bool) : Taking.left { resumed := some true, start := start } s.toA b =
      Taking.left { start := start } rest b := by
    rw [hinbox]
    rfl
  have hpermits {e : PumpEvent} (he : Permits s.toA e) : Permits rest e := fun i hi q hq =>
    he i hi q (hinbox ▸ List.mem_cons_of_mem p hq)
  exact
    { trace := by
        rw [harrived.trace, List.append_assoc, htrace]
        rfl
      packets := by
        have hpackets := harrived.packets
        unfold sentPackets at hpackets ⊢
        rw [List.filterMap_append, List.reverse_append, hpackets]
        rfl
      encodes := fun e he => by
        rw [List.mem_append, List.mem_singleton] at he
        rcases he with he | rfl
        · exact harrived.encodes e he
        · rfl
      delivered := by
        have hdelivered := harrived.delivered
        unfold deliveredTags at hdelivered ⊢
        rw [List.reverse_append, List.filterMap_append, hdelivered, hinbox]
        exact congrArg (· :: _) htag
      handled := fun e he => by
        rw [List.mem_append, List.mem_singleton] at he
        rcases he with he | rfl
        · have hconcerns := harrived.handled e he
          rw [hinbox]
          exact hconcerns
        · exact trivial
      wellFormed := harrived.wellFormed
      entries := harrived.entries
      busy := hleft _ ▸ harrived.busy
      settled := fun hall => hleft _ ▸ harrived.settled fun e he =>
        hpermits (hall e (List.mem_append_left _ he)) }

/-- **Receiving.** What an update takes concerns the connections that it was sent for, and they are
there. -/
theorem recvFromTunnel_arrived (env : PumpEnv) (hbusy : Busy s.a s.toA)
    (hhonest : (taking env conns s.a).Honest s.toA) :
    let t := taking env conns s.a
    let r := recvFromTunnel (onTaggedCommand (t.tag s.toA) env.connect) env conns s.a
    r ≠ .error .closedConnection ∧ ∀ c, r = .ok c → ∃ events, Arrived T conns s t c events := by
  generalize ht : taking env conns s.a = t at hhonest
  dsimp only
  generalize hresult : recvFromTunnel (onTaggedCommand (t.tag s.toA) env.connect) env conns s.a = r
  unfold recvFromTunnel at hresult
  unfold taking at ht
  cases htunnel : lookup s.a.slots conns 0 with
  | none =>
    rw [htunnel] at hresult
    subst hresult
    exact ⟨fun he => (nomatch he), fun c hc => (nomatch hc)⟩
  | some tunnel =>
    rw [htunnel] at hresult ht
    dsimp only at hresult ht
    by_cases hempty : bufEmpty tunnel.conn.inBuf = true
    · rw [if_pos hempty] at hresult ht
      subst hresult ht
      exact ⟨fun he => (nomatch he), fun c hc =>
        ⟨[], Except.ok.inj hc ▸ arrived_nothing h hwf hconns hbusy⟩⟩
    rw [if_neg hempty] at hresult ht
    by_cases hidle : s.a.pump.sendingTo = -1
    · rw [if_neg (not_not_intro hidle)] at hresult
      rw [if_pos hidle] at ht
      subst hresult
      exact nextFrame_arrived h hwf hconns env hidle htunnel ht.symm hhonest
    rw [if_pos hidle] at hresult
    rw [if_neg hidle] at ht
    obtain ⟨p, rest, id, hinbox, hp, hid⟩ := hbusy.resolve_left hidle
    obtain ⟨target, htarget⟩ := exists_target h hwf hconns hinbox hp
    have hpos : 1 ≤ id.toNat := by
      have := hwf.sendingTo.resolve_left hidle
      omega
    rw [hid, Int.toNat_natCast, htarget] at hresult ht
    dsimp only at hresult ht
    have hdeliver := deliver_of_busy hid env tunnel target
    rw [show (decodeTo env id.toNat tunnel target s.a).1 =
      (decode env.wild tunnel.conn.inBuf target.conn.outBuf).1 from rfl] at hresult hdeliver
    let d := s.a.deliver env id.toNat tunnel target
    by_cases hend : (decode env.wild tunnel.conn.inBuf target.conn.outBuf).1 = true
    · -- the frame has come to its end, and the next one follows
      rw [if_pos hend] at hresult hdeliver
      rw [hdeliver] at hresult
      subst hresult
      have ht' : t = { resumed := some true, start := t.start } := by rw [← ht, hend]
      have hstart : t.start =
          frameStart (decode env.wild tunnel.conn.inBuf target.conn.outBuf).2.1.contents := by
        rw [← ht, if_pos hend]
      obtain ⟨hlast, hdel⟩ := (hconns.lookup_iff hwf.nodup).mp htarget
      obtain ⟨htag, -, htaken⟩ := deliver_arrived h hwf hconns hinbox hp htarget env tunnel
      have hwf₁ : WellFormed d :=
        (Step.deliver env tunnel hpos hlast hdel (.inr hid)).wellFormed hwf
      have hconns₁ : ConnsOk conns d.slots := hconns.moved
        (slotsMoved_deliver hwf.nodup env id.toNat tunnel (mem_of_lastWithId hlast).1)
      obtain ⟨tunnel', htunnel', hin⟩ := exists_lookup_decodeTo env id.toNat target htunnel rfl
      have hrest : t.rest s.toA = Taking.rest { start := t.start } rest := by
        rw [ht', hinbox]
        rfl
      have htagEq : t.tag s.toA = Taking.tag { start := t.start } rest := by
        unfold Taking.tag
        rw [hrest]
      have hnext := nextFrame_arrived (t := { start := t.start }) htaken hwf₁ hconns₁ env
        (if_pos hend) htunnel' (by rw [hin, hstart]) (fun start hs => hrest ▸ hhonest start hs)
      rw [htagEq]
      refine ⟨hnext.1, fun c hc => ?_⟩
      obtain ⟨events, harrived⟩ := hnext.2 c hc
      rw [ht']
      exact ⟨_, harrived.after_data hinbox htag rfl⟩
    · rw [if_neg hend] at hresult hdeliver
      rw [hdeliver] at hresult
      subst hresult
      refine ⟨fun he => (nomatch he), fun c hc => ?_⟩
      obtain rfl := Except.ok.inj hc
      have ht' : t = { resumed := some false, start := none } := by
        rw [← ht, if_neg hend, Bool.eq_false_of_not_eq_true hend]
      have hsend : d.pump.sendingTo = id.toNat := if_neg hend
      have hbusy' : ¬ d.pump.sendingTo = -1 := by omega
      obtain ⟨bytes, harrived⟩ := arrived_data (t := t) h hwf hconns env tunnel
        (fun hzero => by rw [hzero] at hpos; exact absurd hpos (by decide)) (.inr hid) hinbox hp
        htarget (by rw [ht', hinbox]; rfl) (by rw [if_neg hbusy', ht']; rfl)
      exact ⟨_, harrived⟩

end OsTasks.PortForwarding
