import OsTasks.Library.IdTurns
import OsTasks.PortForwarding.ServedOnce

/-!
# Updates as turns

An orderly update of an endpoint is a turn of a party that uses ids again: `cm_poll` sweeps its
connections, and what follows is a sequence of moves. A message is lost in two ways: a command that
does not fit in the output of the tunnel has left the queue, and an answer to `CMD_NEW` finds the
queue full.

## Main definitions

* `PumpEvent.loses`, `Loses`: the messages that an update loses.

## Main results

* `sweep_poll`, `moves_announced`, `moves_intake`, `moves_sendToTunnel`: the parts of an update.
* `turn_after`: an orderly update is a turn.
-/

namespace OsTasks.PortForwarding

open ReusedIds

/-! ### What is lost -/

/-- The message that is lost, if the queue was full when the pump was entered. -/
def PumpEvent.loses (full : Bool) : PumpEvent → Option Kind
  | .dropped command => some (commandKind command.cmd)
  | .handled command none _ opened =>
    if full && command.cmd == cmdNew then some (if opened then .other else .closes) else none
  | _ => none

/-- The queue is full when the update enters the pump. -/
def Env.full (env : Env) (c : Controller) : Bool :=
  (pumpEntry env.poll c).any fun r => cmdqLength r.1.pump.cmdQueue == r.1.pump.cmdQueue.cap

/-- What the update of `a` loses are messages of the kinds `L`. -/
def Loses (L : Kind → Prop) (s : System) (env : Env) (a' : Controller) : Prop :=
  ∀ e ∈ s.newEvents a', ∀ kind ∈ e.loses (env.full s.a), L kind

instance (L : Kind → Prop) [DecidablePred L] (s : System) (env : Env) (a' : Controller) :
    Decidable (Loses L s env a') :=
  inferInstanceAs (Decidable (∀ e ∈ s.newEvents a', ∀ kind ∈ e.loses (env.full s.a), L kind))

/-- What the event announces or answers is permitted, and what it loses is of the kinds `L`. -/
def Allows (L : Kind → Prop) (inbox : List Packet) (full : Bool) (e : PumpEvent) : Prop :=
  Permits inbox e ∧ ∀ kind ∈ e.loses full, L kind

variable {L : Kind → Prop} {T : ℕ → ℕ} {s : System} {conns : Conns} {c c' : Controller}
  {events : List PumpEvent} {rest : List Packet} {full : Bool}

/-! ### Polling -/

/-- **Polling** forgets the closed connections, and may list a client that is not announced. -/
theorem sweep_poll {env : PollEnv} {m : Manager} (hpoll : cmPoll env s.a.manager = .ok (m, .none)) :
    Sweep s.world { s with a := { s.a with manager := m } }.world ∧
      ∀ t ∈ m.slots, t.entry.id = none →
        t.entry ∈ s.world.mine ∨ t.entry.unannounced = true := by
  obtain ⟨f, new, hslots, hnone, hrun, hnew⟩ := cmPoll_effect hpoll
  have hkept {t : Slot} (ht : t ∈ s.a.slots.filterMap f) :
      ∃ u ∈ s.a.slots, f u = some t ∧ t.entry = u.entry := by
    obtain ⟨u, hu, hft⟩ := List.mem_filterMap.mp ht
    exact ⟨u, hu, hft, (hrun u t hft).entry⟩
  have hfresh {t : Slot} (ht : t ∈ new) : t.entry.id = none ∧ t.entry.unannounced = true := by
    rcases hnew with ⟨rfl, -⟩ | ⟨u, rfl, hfresh, -⟩
    · exact absurd ht List.not_mem_nil
    · rw [List.mem_singleton.mp ht, entry_id_none, hfresh.id]
      exact ⟨by decide, congrArg ConnState.new hfresh.state⟩
  refine ⟨⟨⟨(s.a.slots.filterMap f).map Slot.entry, new.map Slot.entry, ?_, ?_, ?_, ?_, ?_⟩, rfl,
    rfl, rfl⟩, fun t ht _ => ?_⟩
  · change m.slots.map _ = _
    rw [hslots, List.map_append]
    rfl
  · exact map_filterMap_sublist fun t t' hft => (hrun t t' hft).entry
  · intro e he
    obtain ⟨t, ht, rfl⟩ := List.mem_map.mp he
    exact delete_of_cmPoll hpoll t (hslots ▸ List.mem_append_left _ ht)
  · intro e he hopen
    obtain ⟨t, ht, rfl⟩ := List.mem_map.mp he
    obtain ⟨t', hft⟩ : ∃ t', f t = some t' := by
      rw [← Option.ne_none_iff_exists', ne_eq, hnone]
      exact Bool.eq_false_iff.mp hopen
    rw [← (hrun t t' hft).entry]
    exact List.mem_map_of_mem (List.mem_filterMap.mpr ⟨t, ht, hft⟩)
  · intro e he
    obtain ⟨t, ht, rfl⟩ := List.mem_map.mp he
    exact (hfresh ht).1
  · rw [hslots] at ht
    rcases List.mem_append.mp ht with ht | ht
    · obtain ⟨u, hu, -, heq⟩ := hkept ht
      exact .inl (heq ▸ List.mem_map_of_mem hu)
    · exact .inr (hfresh ht).2

/-! ### Giving out ids -/

/-- **Sorting** names the connections that get an id, one after the other. -/
theorem moves_assigns {stack stack' : List ℤ} {slots slots' : List Slot} {fs : List Entry}
    {out into : List Message} (hassigns : Assigns stack slots stack' slots')
    (hpos : ∀ i ∈ stack, 0 ≤ i) (done : List Slot)
    (hnd : (stack.take (stack.length - stack'.length)).Nodup)
    (hunused : ∀ i ∈ stack.take (stack.length - stack'.length),
      World.Unused ⟨(done ++ slots).map Slot.entry, fs, out, into⟩ i.toNat) :
    Moves L ⟨(done ++ slots).map Slot.entry, fs, out, into⟩
      ⟨(done ++ slots').map Slot.entry, fs, out, into⟩ := by
  induction hassigns generalizing done with
  | nil => exact .refl
  | @keep _ _ slots slots' s _ _ ih =>
    rw [List.append_cons] at hunused ⊢
    rw [List.append_cons done s slots']
    exact ih hpos (done ++ [s]) hnd hunused
  | @wait _ slots slots' s _ _ ih =>
    rw [List.append_cons] at hunused ⊢
    rw [List.append_cons done s slots']
    exact ih hpos (done ++ [s]) hnd hunused
  | @take stack stack' slots slots' s id hid hrest ih =>
    have hlen : (id :: stack).length - stack'.length = stack.length - stack'.length + 1 :=
      Nat.succ_sub hrest.length_le
    rw [hlen, List.take_succ_cons] at hnd hunused
    obtain ⟨hpos₀, hpos⟩ := List.forall_mem_cons.mp hpos
    obtain ⟨hunused₀, hunused⟩ := List.forall_mem_cons.mp hunused
    obtain ⟨hnot, hnd⟩ := List.nodup_cons.mp hnd
    have hmine : (done ++ s :: slots).map Slot.entry =
        done.map Slot.entry ++ s.entry :: slots.map Slot.entry := by
      rw [List.map_append, List.map_cons]
    let s' : Slot := { s with conn := { s.conn with id := id } }
    have hmine' : (done ++ [s'] ++ slots).map Slot.entry =
        done.map Slot.entry ++ { s.entry with id := some id.toNat } :: slots.map Slot.entry := by
      rw [← List.append_cons, List.map_append, List.map_cons, entry_of_id hpos₀]
    have hnamed : Move L ⟨(done ++ s :: slots).map Slot.entry, fs, out, into⟩
        ⟨(done ++ [s'] ++ slots).map Slot.entry, fs, out, into⟩ := by
      rw [hmine']
      exact .name hmine (entry_id_none.mpr hid) hunused₀
    rw [List.append_cons done s' slots']
    refine .head hnamed (ih hpos (done ++ [s']) hnd fun i hi => ?_)
    have hne : id.toNat ≠ i.toNat := by
      have hi₀ := hpos i (List.mem_of_mem_take hi)
      have : id ≠ i := fun he => hnot (he ▸ hi)
      omega
    rw [hmine']
    exact (hunused i hi).name hmine hne

/-! ### Announcing -/

/-- **One announcement** is a move, if it is permitted. -/
theorem moves_announceStep (hwf : WellFormed s.a) (hstep : AnnounceStep s.a c) :
    ∃ t cmd, c.trace = .queued t cmd :: s.a.trace ∧
      (Permits s.toA (.queued t cmd) → Move L s.world { s with a := c }.world) := by
  cases hstep with
  | @announce t cmd conn q ht hid hdel hann hq =>
    refine ⟨t, cmd, rfl, fun hpermits => ?_⟩
    obtain ⟨l₁, l₂, hl, hmod⟩ := modifyConn_eq_append hwf.nodup ht fun _ => conn
    have hle := (hwf.slotOk t ht).id_le
    have hmine := world_mine hl
    have hmine' : (s.a.announce t cmd conn q).slots.map Slot.entry =
        l₁.map Slot.entry ++ Slot.entry { t with conn := conn } :: l₂.map Slot.entry := by
      change (modifyConn s.a.slots t.ref fun _ => conn).map _ = _
      rw [hmod, List.map_append, List.map_cons]
    have hout : inFlight s.toB (s.a.announce t cmd conn q) =
        s.world.out ++ [⟨commandKind cmd, t.conn.id.toNat, t.entry.tag⟩] := by
      rw [← toNat_toByte (by omega) hle]
      exact inFlight_enqueue (show cmdqEnqueue _ ⟨cmd, toByte t.conn.id, t.inc⟩ = some _ from hq)
        s.toB
    have hidt : t.entry.id = some t.conn.id.toNat := entry_id.mpr (by omega)
    have hmem : t.entry ∈ s.world.mine := List.mem_map_of_mem ht
    have htell (hsame : Slot.entry { t with conn := conn } = t.entry)
        (hkind : commandKind cmd = .other) :
        Move L s.world { s with a := s.a.announce t cmd conn q }.world := by
      unfold System.world
      dsimp only
      rw [hmine', hout, hkind, hsame, ← hmine]
      exact .tell hmem hidt hdel
    cases hann with
    | new hnew =>
      unfold System.world
      dsimp only
      rw [hmine', hout]
      exact .announce hmine hidt hdel hnew
    | close hnew hclose =>
      unfold System.world
      dsimp only
      rw [hmine', hout]
      refine .close hmine hidt hdel fun m hm hkind hid => ?_
      obtain ⟨p, hp, hdata⟩ := exists_of_data hm hkind
      exact hpermits _ rfl p hp (hdata.trans (congrArg some hid))
    | closeIn => exact htell rfl rfl
    | closeOut => exact htell rfl rfl

/-- **Announcements** are moves, if they are permitted. -/
theorem moves_announceRun (hwf : WellFormed s.a) (hrun : AnnounceRun s.a c) :
    ∃ events, c.trace = events ++ s.a.trace ∧ (∀ e ∈ events, e.Queues) ∧
      ((∀ e ∈ events, Permits s.toA e) → Moves L s.world { s with a := c }.world) := by
  induction hrun with
  | refl => exact ⟨[], rfl, fun _ he => absurd he List.not_mem_nil, fun _ => .refl⟩
  | @tail c c' hrun hlast ih =>
    obtain ⟨events, htrace, hqueues, hmoves⟩ := ih
    obtain ⟨t, cmd, htrace', hnext⟩ :=
      moves_announceStep (L := L) (s := { s with a := c }) (AnnounceRun.wellFormed hrun hwf) hlast
    refine ⟨.queued t cmd :: events, ?_, ?_, fun hpermits => ?_⟩
    · rw [htrace', htrace]
      rfl
    · exact List.forall_mem_cons.mpr ⟨⟨t, cmd, rfl⟩, hqueues⟩
    · obtain ⟨hlastPermits, hpermits⟩ := List.forall_mem_cons.mp hpermits
      exact (hmoves hpermits).tail (hnext hlastPermits)

/-- **The part of an update between `cm_poll` and the pump** is a sequence of moves. -/
theorem moves_announced {env : PollEnv} {m : Manager} (hwf : WellFormed s.a)
    (hpoll : cmPoll env s.a.manager = .ok (m, .none)) (hnd : (given env s.a).Nodup)
    (hunused : ∀ i ∈ given env s.a, s.Unused i)
    (hrun : AnnounceRun (Controller.sort { s.a with manager := m }) c) :
    ∃ events, c.trace = events ++ s.a.trace ∧ (∀ e ∈ events, e.Queues) ∧
      ((∀ e ∈ events, Permits s.toA e) →
        Moves L { s with a := { s.a with manager := m } }.world { s with a := c }.world) := by
  have hwf₁ : WellFormed { s.a with manager := m } := hwf.poll hpoll
  have hdel := delete_of_cmPoll hpoll
  unfold given at hnd hunused
  simp only [hpoll] at hnd hunused
  let s₁ : System := { s with a := { s.a with manager := m } }
  have hsorted : Moves L s₁.world { s with a := s₁.a.sort }.world :=
    moves_assigns hwf₁.sort_assigns (fun i hi => (hwf₁.freeIds i hi).1) [] hnd fun i hi =>
      have hpos := (hwf₁.freeIds i (List.mem_of_mem_take hi)).1
      ((hunused i hi).poll hpos hpoll).world hpos hdel
  obtain ⟨events, htrace, hqueues, hmoves⟩ :=
    moves_announceRun (L := L) (s := { s with a := s₁.a.sort }) hwf₁.sort hrun
  exact ⟨events, htrace, hqueues, fun hpermits => hsorted.trans (hmoves hpermits)⟩

/-! ### Receiving -/

/-- An answer is behind everything in flight, or the queue is full and it is lost. -/
theorem inFlight_answer (c : Controller) (command : Command) (channel : List Packet) :
    ∃ reply, (reply = [] ∧ cmdqLength c.pump.cmdQueue = c.pump.cmdQueue.cap ∨
        reply = [command.packet.message]) ∧
      inFlight channel (sendOrWarn c command) = inFlight channel c ++ reply := by
  unfold sendOrWarn sendCommand
  cases hq : cmdqEnqueue c.pump.cmdQueue command with
  | none =>
    exact ⟨[], .inl ⟨rfl, (cmdqEnqueue_eq_none_iff _ _).mp hq⟩, (List.append_nil _).symm⟩
  | some q => exact ⟨_, .inr rfl, inFlight_enqueue hq channel⟩

/-- A command for a connection that is there. -/
theorem move_command_some {cmd arg : UInt8} {tag : ℕ} {t : Slot} (env : ConnectEnv)
    (h : Settled T s.world) (hwf : WellFormed s.a)
    (hinbox : s.toA = ⟨.command cmd arg, tag⟩ :: rest)
    (htarget : commandTarget s.a ⟨cmd, arg, tag⟩ = some t) :
    Move L s.world { s with a := onCommand env s.a ⟨cmd, arg, tag⟩, toA := rest }.world := by
  obtain ⟨ht, hid⟩ := commandTarget_eq_some htarget
  have hidt : t.entry.id = some arg.toNat := entry_id.mpr hid
  have hinto := world_into hinbox
  have hmem : t.entry ∈ s.world.mine := List.mem_map_of_mem ht
  obtain ⟨l₁, l₂, hl, hmod⟩ := modifyConn_eq_append hwf.nodup ht (commandChange cmd)
  have hmine := world_mine hl
  have hworld : { s with a := onCommand env s.a ⟨cmd, arg, tag⟩, toA := rest }.world =
      { s.world with
        mine := l₁.map Slot.entry ++
          Slot.entry { t with conn := commandChange cmd t.conn } :: l₂.map Slot.entry
        into := inFlight rest s.b } := by
    rw [onCommand_of_some htarget]
    unfold System.world
    dsimp only
    change World.mk ((modifyConn s.a.slots t.ref (commandChange cmd)).map _) _ _ _ = _
    rw [hmod, List.map_append, List.map_cons]
    rfl
  rw [hworld]
  by_cases hclose : cmd = cmdClose
  · subst hclose
    exact .closed hinto rfl hmine hidt
  · rw [entry_commandChange hclose, ← hmine]
    refine .take hinto (fun hkind => ?_) fun hkind => ?_
    · exact h.opening _ (hinto ▸ List.mem_cons_self) hkind _ hmem hidt
    · change commandKind cmd = .closes at hkind
      unfold commandKind at hkind
      rw [if_neg hclose] at hkind
      split_ifs at hkind

/-- `CMD_NEW` for an id that no connection has opens a connection, or refuses to. -/
theorem move_new {arg : UInt8} {tag : ℕ} (env : ConnectEnv)
    (hfull : cmdqLength s.a.pump.cmdQueue = s.a.pump.cmdQueue.cap → full = true)
    (hinbox : s.toA = ⟨.command cmdNew arg, tag⟩ :: rest)
    (htarget : commandTarget s.a ⟨cmdNew, arg, tag⟩ = none) :
    ∃ opened, (onCommand env s.a ⟨cmdNew, arg, tag⟩).trace =
        .handled ⟨cmdNew, arg, tag⟩ none s.a.freeIds opened :: s.a.trace ∧
      (Allows L s.toA full (.handled ⟨cmdNew, arg, tag⟩ none s.a.freeIds opened) → Move L s.world
        { s with a := onCommand env s.a ⟨cmdNew, arg, tag⟩, toA := rest }.world) := by
  have hinto := world_into hinbox
  have hmine : ∀ e ∈ s.world.mine, e.id ≠ some arg.toNat := by
    intro e he hid
    obtain ⟨t, ht, rfl⟩ := List.mem_map.mp he
    exact commandTarget_eq_none htarget t ht (entry_id.mp hid)
  rw [onCommand_new htarget rfl]
  generalize hr : cmConnect env s.a.manager s.a.bufSize s.a.bufSize (arg.toNat : ℤ) tag = r
  let c : Controller :=
    { s.a.note (.handled ⟨cmdNew, arg, tag⟩ none s.a.freeIds r.1) with manager := r.2 }
  let answer : Command := ⟨if r.1 then cmdAck else cmdClose, arg, tag⟩
  obtain ⟨q, hq⟩ := sendOrWarn_eq c answer
  obtain ⟨reply, hreply, hout⟩ := inFlight_answer c answer s.toB
  have hworld : { s with a := sendOrWarn c answer, toA := rest }.world =
      { s.world with
        mine := r.2.slots.map Slot.entry
        out := s.world.out ++ reply
        into := inFlight rest s.b } := by
    unfold System.world
    dsimp only
    rw [hout, hq]
    rfl
  refine ⟨r.1, congrArg Controller.trace hq, fun hallows => ?_⟩
  have hlost (hq : cmdqLength s.a.pump.cmdQueue = s.a.pump.cmdQueue.cap) :
      L (if r.1 then .other else .closes) := by
    refine hallows.2 _ ?_
    unfold PumpEvent.loses
    rw [hfull hq]
    rfl
  rw [hworld]
  rcases hr ▸ cmConnect_slots env s.a.manager s.a.bufSize s.a.bufSize (arg.toNat : ℤ) tag with
    ⟨hfailed, hslots, -⟩ | ⟨hopened, t, hslots, hfresh, -⟩
  · have hanswer : answer.packet.message = ⟨.closes, arg.toNat, tag⟩ := by
      simp only [answer, hfailed]
      rfl
    rw [hfailed] at hlost
    rw [hslots]
    refine .refused hinto rfl hmine
      (hreply.imp (And.imp_right hlost) fun heq => heq.trans (by rw [hanswer]; rfl))
      fun m hm hkind hid => ?_
    obtain ⟨p, hp, hdata⟩ := exists_of_data hm hkind
    exact hallows.1 arg.toNat (by rw [hfailed]; rfl) p (hinbox ▸ List.mem_cons_of_mem _ hp)
      (hdata.trans (congrArg some hid))
  · have hanswer : answer.packet.message = ⟨.other, arg.toNat, tag⟩ := by
      simp only [answer, hopened]
      rfl
    rw [hopened] at hlost
    rw [hslots, List.map_append, List.map_singleton, hfresh.entry]
    exact .opened hinto rfl hmine
      (hreply.imp (And.imp_right hlost) fun heq => heq.trans (by rw [hanswer]; rfl))

/-- **A command that arrives** is a move, if what it leads to is allowed. -/
theorem move_onCommand {cmd arg : UInt8} {tag : ℕ} (env : ConnectEnv) (h : Settled T s.world)
    (hwf : WellFormed s.a)
    (hfull : cmdqLength s.a.pump.cmdQueue = s.a.pump.cmdQueue.cap → full = true)
    (hinbox : s.toA = ⟨.command cmd arg, tag⟩ :: rest) :
    ∃ target opened, (onCommand env s.a ⟨cmd, arg, tag⟩).trace =
        .handled ⟨cmd, arg, tag⟩ target s.a.freeIds opened :: s.a.trace ∧
      (Allows L s.toA full (.handled ⟨cmd, arg, tag⟩ target s.a.freeIds opened) →
        Move L s.world { s with a := onCommand env s.a ⟨cmd, arg, tag⟩, toA := rest }.world) := by
  cases htarget : commandTarget s.a ⟨cmd, arg, tag⟩ with
  | some t =>
    refine ⟨some t, false, ?_, fun _ => move_command_some env h hwf hinbox htarget⟩
    rw [onCommand_of_some htarget]
    rfl
  | none =>
    by_cases hnew : cmd = cmdNew
    · subst hnew
      obtain ⟨opened, htrace, hmove⟩ := move_new (L := L) env hfull hinbox htarget
      exact ⟨none, opened, htrace, hmove⟩
    · refine ⟨none, false, ?_, fun _ => ?_⟩
      · rw [onCommand_of_none htarget hnew]
        rfl
      · rw [onCommand_of_none htarget hnew]
        refine .take (world_into hinbox) (commandKind_ne_opens hnew) fun _ e he hid => ?_
        obtain ⟨t, ht, rfl⟩ := List.mem_map.mp he
        exact commandTarget_eq_none htarget t ht (entry_id.mp hid)

/-- What a part of receiving has done to `a`. -/
def TakesIn (L : Kind → Prop) (full : Bool) (s : System) (c : Controller)
    (toA : List Packet) : Prop :=
  ∃ events, c.trace = events ++ s.a.trace ∧ sentPackets events = [] ∧
    (∀ e ∈ events, e.encodes = none) ∧
      ((∀ e ∈ events, Allows L s.toA full e) →
        Moves L s.world { s with a := c, toA := toA }.world)

/-- A command frame is taken and handled. -/
theorem takesIn_command {cmd arg : UInt8} {tag : ℕ} (env : ConnectEnv) (tunnel : Slot)
    (h : Settled T s.world) (hwf : WellFormed s.a)
    (hfull : cmdqLength s.a.pump.cmdQueue = s.a.pump.cmdQueue.cap → full = true)
    (hinbox : s.toA = ⟨.command cmd arg, tag⟩ :: rest) :
    TakesIn L full s (s.a.handleFrame (onTaggedCommand tag env) tunnel cmd arg) rest := by
  let c₁ := (s.a.modify tunnel.ref fun conn =>
    { conn with inBuf := bufAdvanceReadPtr tunnel.conn.inBuf 3 }).note (.received cmd arg)
  have hmoved₁ := slotsMoved_inBuf 0 s.a.slots tunnel.ref
    fun _ => bufAdvanceReadPtr tunnel.conn.inBuf 3
  have hwf₁ : WellFormed c₁ := hwf.moved hmoved₁ rfl rfl hwf.sendingTo
  have hworld₁ : { s with a := c₁ }.world = s.world := world_moved hmoved₁ rfl
  obtain ⟨target, opened, htrace, hmove⟩ :=
    move_onCommand (L := L) (s := { s with a := c₁ }) env (hworld₁.symm ▸ h) hwf₁ hfull hinbox
  let c₂ := onCommand env c₁ ⟨cmd, arg, tag⟩
  have hmoved₂ := slotsMoved_inBuf 0 c₂.slots tunnel.ref fun buf => bufAdvanceReadPtr buf 2
  have hworld₂ := world_moved (s := { s with a := c₂, toA := rest }) hmoved₂
    (c := c₂.modify tunnel.ref fun conn =>
      { conn with inBuf := bufAdvanceReadPtr conn.inBuf 2 }) rfl
  refine ⟨[.handled ⟨cmd, arg, tag⟩ target c₁.freeIds opened, .received cmd arg], htrace, rfl,
    fun e he => ?_, fun hallows => ?_⟩
  · rcases List.mem_pair.mp he with rfl | rfl <;> rfl
  · have hmove := hmove (hallows _ List.mem_cons_self)
    rw [hworld₁] at hmove
    exact hworld₂ ▸ .single hmove

/-- Bytes of the oldest data frame are delivered, and it is taken if it has come to its end. -/
theorem takesIn_data {id : UInt8} {p : Packet} {target : Slot} {toA : List Packet}
    (env : PumpEnv) (tunnel : Slot) (hwf : WellFormed s.a) (hinbox : s.toA = p :: rest)
    (hp : p.start = .data id) (htarget : target ∈ s.a.slots) (n : ℕ)
    (htoA : toA = s.toA ∨ toA = rest) :
    TakesIn L full s (s.a.deliver env n tunnel target) toA := by
  have hworld : { s with a := s.a.deliver env n tunnel target }.world = s.world :=
    world_moved (slotsMoved_deliver hwf.nodup env n tunnel htarget) rfl
  refine ⟨[.delivered n 0 target ((decode env.wild tunnel.conn.inBuf
    target.conn.outBuf).2.2.contents.drop target.conn.outBuf.length)], rfl, rfl, fun e he => ?_,
    fun _ => ?_⟩
  · rw [List.mem_singleton.mp he]
    rfl
  · rcases htoA with rfl | rfl
    · exact hworld ▸ .refl
    · have hmsg := message_data hp
      have htake : Move L s.world { s.world with into := inFlight toA s.b } :=
        .take (world_into hinbox) (by rw [hmsg]; exact fun hkind => nomatch hkind)
          fun hkind => by rw [hmsg] at hkind; cases hkind
      rw [← hworld] at htake
      exact hworld ▸ .single htake

/-- **A new frame** is taken, if one is there. -/
theorem takesIn_startsFrame {env : PumpEnv} {start : Option FrameStart} (h : Settled T s.world)
    (hwf : WellFormed s.a)
    (hfull : cmdqLength s.a.pump.cmdQueue = s.a.pump.cmdQueue.cap → full = true)
    (hhonest : Taking.Honest { start := start } s.toA)
    (hstarts : StartsFrame (onTaggedCommand (Taking.tag { start := start } s.toA) env.connect) env
      conns s.a start c) :
    TakesIn L full s c (Taking.left { start := start } s.toA (c.pump.sendingTo = -1)) := by
  cases hstarts with
  | nothing =>
    exact ⟨[], rfl, rfl, fun _ he => absurd he List.not_mem_nil, fun _ => .refl⟩
  | @command tunnel cmd arg =>
    obtain ⟨rest, hinbox⟩ := hhonest.exists_cons rfl
    have hleft (b : Bool) :
        Taking.left { start := some (.command cmd arg) } s.toA b = rest := by
      change s.toA = _ at hinbox
      rw [hinbox]
      rfl
    rw [hleft]
    exact takesIn_command env.connect tunnel h hwf hfull hinbox
  | @data tunnel target id _ _ _ _ _ _ htarget =>
    obtain ⟨rest, hinbox⟩ := hhonest.exists_cons rfl
    change s.toA = _ at hinbox
    have hleft (b : Bool) : Taking.left { start := some (.data id) } s.toA b = s.toA ∨
        Taking.left { start := some (.data id) } s.toA b = rest := by
      cases b with
      | false => exact .inl rfl
      | true => exact .inr (congrArg List.tail hinbox)
    exact takesIn_data env tunnel.afterStart hwf hinbox rfl (lookup_eq_some htarget).1 _ (hleft _)

/-- A data frame has come to its end, and what follows it is taken. -/
theorem TakesIn.trans {c₁ : Controller} {toA toA' : List Packet} (h : TakesIn L full s c₁ toA)
    (h' : TakesIn L full { s with a := c₁, toA := toA } c toA') (hsub : toA ⊆ s.toA) :
    TakesIn L full s c toA' := by
  obtain ⟨events, htrace, hpackets, hencodes, hmoves⟩ := h
  obtain ⟨later, htrace', hpackets', hencodes', hmoves'⟩ := h'
  refine ⟨later ++ events, by rw [htrace', htrace, List.append_assoc], ?_, fun e he => ?_,
    fun hallows => ?_⟩
  · rw [sentPackets_append, hpackets, hpackets', List.append_nil]
  · exact (List.mem_append.mp he).elim (hencodes' e) (hencodes e)
  · refine (hmoves fun e he => hallows e (List.mem_append_right _ he)).trans
      (hmoves' fun e he => ?_)
    obtain ⟨hpermits, hloses⟩ := hallows e (List.mem_append_left _ he)
    exact ⟨fun i hi p hp => hpermits i hi p (hsub hp), hloses⟩

/-- **Receiving** is a sequence of moves. -/
theorem moves_intake {env : PumpEnv} {t : Taking} (h : Settled T s.world) (hwf : WellFormed s.a)
    (hconns : ConnsOk conns s.a.slots) (hbusy : Busy s.a s.toA)
    (hfull : cmdqLength s.a.pump.cmdQueue = s.a.pump.cmdQueue.cap → full = true)
    (hhonest : t.Honest s.toA)
    (hintake : Intake (onTaggedCommand (t.tag s.toA) env.connect) env conns s.a t c) :
    TakesIn L full s c (t.left s.toA (c.pump.sendingTo = -1)) := by
  -- the frame in progress is the oldest one
  have holdest {id : ℕ} (hid : 1 ≤ id) (hsend : s.a.pump.sendingTo = id) :
      ∃ p rest b, s.toA = p :: rest ∧ p.start = .data b ∧ b.toNat = id := by
    obtain ⟨p, rest, b, hinbox, hp, hb⟩ := hbusy.resolve_left (by omega)
    exact ⟨p, rest, b, hinbox, hp, by omega⟩
  cases hintake with
  | nothing => exact ⟨[], rfl, rfl, fun _ he => absurd he List.not_mem_nil, fun _ => .refl⟩
  | starts _ hstarts => exact takesIn_startsFrame h hwf hfull hhonest hstarts
  | @goesOn tunnel target id _ _ hid hsend htarget _ =>
    obtain ⟨p, rest, b, hinbox, hp, -⟩ := holdest hid hsend
    exact takesIn_data env tunnel hwf hinbox hp (lookup_eq_some htarget).1 id (.inl rfl)
  | @ends tunnel target id start _ _ _ hid hsend htarget hend hstarts =>
    obtain ⟨p, rest, b, hinbox, hp, rfl⟩ := holdest hid hsend
    obtain ⟨hlast, hdel⟩ := (hconns.lookup_iff hwf.nodup).mp htarget
    obtain ⟨-, -, htaken⟩ := deliver_arrived h hwf hconns hinbox hp htarget env tunnel
    have hwf₁ : WellFormed (s.a.deliver env b.toNat tunnel target) :=
      (PortForwarding.Step.deliver env tunnel hid hlast hdel (.inr hsend)).wellFormed hwf
    have hrest : Taking.rest { resumed := some true, start := start } s.toA = rest := by
      rw [hinbox]
      rfl
    have htag : Taking.tag { resumed := some true, start := start } s.toA =
        Taking.tag { start := start } rest := by
      unfold Taking.tag
      rw [hrest]
      rfl
    have hleft (b : Bool) : Taking.left { resumed := some true, start := start } s.toA b =
        Taking.left { start := start } rest b := by
      unfold Taking.left
      rw [hrest]
      rfl
    rw [htag] at hstarts
    rw [hleft]
    have hnext : TakesIn L full
        { s with a := s.a.deliver env b.toNat tunnel target, toA := rest } c _ :=
      takesIn_startsFrame htaken hwf₁ hfull (fun start hs => hrest ▸ hhonest start hs) hstarts
    exact (takesIn_data env tunnel hwf hinbox hp (lookup_eq_some htarget).1 b.toNat
      (.inr rfl)).trans hnext (hinbox ▸ List.subset_cons_self p rest)

/-! ### Sending -/

/-- What sending has done to `a`. -/
structure SendsOff (L : Kind → Prop) (full : Bool) (s : System) (c : Controller)
    (events : List PumpEvent) : Prop where
  trace : c.trace = events ++ s.a.trace
  sends : ∀ e ∈ events, e.Sends
  moves : (∀ e ∈ events, ∀ kind ∈ e.loses full, L kind) → Supported s events →
    Moves L s.world { s with a := c, toB := s.toB ++ sentPackets events }.world

theorem SendsOff.refl (s : System) : SendsOff L full s s.a [] where
  trace := rfl
  sends _ he := absurd he List.not_mem_nil
  moves _ _ := by
    rw [show sentPackets [] = [] from rfl, List.append_nil]
    exact .refl

theorem supported_of_encodes (h : ∀ e ∈ events, e.encodes = none) : Supported s events :=
  fun e he i hi => absurd (h e he ▸ hi) (Option.not_mem_none i)

/-- **Sending the queued commands** loses those that do not fit. -/
theorem sendsOff_drainCommands {ref n : ℕ} (hready : PumpReady conns c)
    (htunnel : conns 0 = some ref) (h : SendsOff L full s c events)
    (hencodes : ∀ e ∈ events, e.encodes = none) :
    ∃ events, SendsOff L full s (drainCommands conns n c).2 events ∧
      PumpReady conns (drainCommands conns n c).2 := by
  induction n generalizing c events with
  | zero => exact ⟨events, h, hready⟩
  | succ n ih =>
    have hlost : PumpReady conns (c.setQueue (cmdqDequeue c.pump.cmdQueue).2) :=
      ⟨hready.nodup, hready.allocated, hready.entries, hready.sendingTo⟩
    let command := (cmdqDequeue c.pump.cmdQueue).1
    have hmoves {last : PumpEvent} (hloses : ∀ e ∈ last :: events, ∀ kind ∈ e.loses full, L kind) :
        Moves L s.world { s with a := c, toB := s.toB ++ sentPackets events }.world :=
      h.moves (fun e he => hloses e (List.mem_cons_of_mem last he)) (supported_of_encodes hencodes)
    unfold drainCommands
    split_ifs with hqueue
    · exact ⟨events, h, hready⟩
    dsimp only
    split
    · -- the tunnel is there
      rename_i hnone
      obtain ⟨t, ht, href, -⟩ := hready.entries 0 ref htunnel
      unfold lookup at hnone
      rw [htunnel] at hnone
      exact absurd href (by simpa using List.find?_eq_none.mp hnone t ht)
    rename_i tunnel ht
    split_ifs with hok
    · let f : Connection → Connection := fun conn =>
        { conn with outBuf := (encodeCommand tunnel.conn.outBuf command.cmd command.arg).2 }
      have hnext : PumpReady conns (((c.setQueue (cmdqDequeue c.pump.cmdQueue).2).modify
          tunnel.ref f).note (.sent command)) :=
        (hlost.modify tunnel.ref (f := f) fun _ _ _ => rfl).note _
      have htrace : (((c.setQueue (cmdqDequeue c.pump.cmdQueue).2).modify tunnel.ref f).note
          (.sent command)).trace = .sent command :: events ++ s.a.trace := congrArg _ h.trace
      refine ih hnext ⟨htrace, List.forall_mem_cons.mpr ⟨.sent _, h.sends⟩, fun hloses _ => ?_⟩
        (List.forall_mem_cons.mpr ⟨rfl, hencodes⟩)
      rw [sentPackets_cons, ← List.append_assoc]
      refine (congrArg (Moves L s.world) (world_congr ?_ ?_)).mpr (hmoves hloses)
      · exact entries_modifyConn (f := f) fun _ => ⟨rfl, rfl⟩
      · exact inFlight_sent _ hqueue
    · refine ⟨.dropped command :: events, ⟨congrArg _ h.trace,
        List.forall_mem_cons.mpr ⟨.dropped _, h.sends⟩, fun hloses _ => ?_⟩, hlost.note _⟩
      have hlose : L command.packet.message.kind := hloses _ List.mem_cons_self _ rfl
      rw [sentPackets_cons, PumpEvent.packet, Option.toList_none, List.append_nil]
      refine (hmoves hloses).tail ?_
      refine .lose (inFlight_dequeue (s.toB ++ sentPackets events) hqueue) hlose fun m hm => ?_
      obtain ⟨command, -, rfl⟩ := List.mem_map.mp hm
      exact commandKind_ne_data command.cmd

/-- **One data frame** is sent, if the connection it is for is supported. -/
theorem SendsOff.encodeTo {t tunnel : Slot} {i : ℕ} (h : SendsOff L full s c events)
    (hwf : (c.slots.map Slot.ref).Nodup) (hentries : EntriesAt conns c.slots) (hi : i < 255)
    (ht : lookup c.slots conns (i + 1) = some t) (hstate : isAlive t.conn.state = true) :
    ∃ events, SendsOff L full s (c.encodeTo t tunnel) events := by
  have hid := hentries.id hwf ht
  have hmem := (lookup_eq_some ht).1
  have htrace := trace_encodeTo c t tunnel
  split_ifs at htrace with hempty
  · refine ⟨events, htrace.trans h.trace, h.sends, fun hloses hsupported => ?_⟩
    refine (congrArg (Moves L s.world) (world_congr (entries_encodeTo c t tunnel) ?_)).mpr
      (h.moves hloses hsupported)
    unfold inFlight
    rw [pump_encodeTo]
  · refine ⟨_ :: events, htrace.trans (congrArg _ h.trace),
      List.forall_mem_cons.mpr ⟨.encoded _ _, h.sends⟩, fun hloses hsupported => ?_⟩
    have hmoves := h.moves (fun e he => hloses e (List.mem_cons_of_mem _ he)) hsupported.of_cons
    have hidt : t.entry.id = some t.conn.id.toNat := entry_id.mpr (by omega)
    have hpeer : Tracks (s.b.slots.map Slot.entry) t.conn.id.toNat ∨
        ∃ n ∈ (s.toB ++ sentPackets events).map Packet.message,
          n.kind = .opens ∧ n.id = t.conn.id.toNat := by
      rcases hsupported _ List.mem_cons_self _ rfl with ⟨u, hu, hidu, hopen⟩ | ⟨p, hp, hstart⟩
      · exact .inl (lists_entries.mpr ⟨u, hu, by omega, hopen⟩)
      · refine .inr ⟨p.message, List.mem_map_of_mem (mem_of_command hp hstart), ?_, ?_⟩
        · unfold Packet.message
          rw [hstart]
          rfl
        · change p.start.id = _
          rw [hstart]
          exact toNat_toByte (by omega) (by omega)
    have hmessage : Packet.message ⟨.data (toByte t.conn.id), t.inc⟩ =
        ⟨.data, t.conn.id.toNat, t.entry.tag⟩ :=
      congrArg (fun i => (⟨.data, i, t.inc⟩ : Message)) (toNat_toByte (by omega) (by omega))
    have hsaid : Move L { s with a := c, toB := s.toB ++ sentPackets events }.world _ :=
      .say (List.mem_map_of_mem hmem) hidt ((isAlive_iff _).mp hstate).2.2 rfl hpeer
    refine (congrArg (Moves L s.world) ?_).mpr (hmoves.tail hsaid)
    unfold System.world
    dsimp only
    rw [entries_encodeTo, sentPackets_cons, ← List.append_assoc]
    congr 1
    unfold inFlight
    rw [pump_encodeTo, List.map_append, List.append_assoc, ← hmessage]
    rfl

/-- **Sending** is a sequence of moves, if what it encodes is supported. -/
theorem sendsOff_sendToTunnel {ref : ℕ} (hready : PumpReady conns s.a)
    (htunnel : conns 0 = some ref) :
    ∃ events, SendsOff L full s (sendToTunnel conns s.a) events := by
  obtain ⟨events, hdrained, hready'⟩ : ∃ events,
      SendsOff L full s (drainCommands conns (cmdqLength s.a.pump.cmdQueue) s.a).2 events ∧
        PumpReady conns (drainCommands conns (cmdqLength s.a.pump.cmdQueue) s.a).2 :=
    sendsOff_drainCommands hready htunnel (.refl s) fun _ he => absurd he List.not_mem_nil
  refine sendToTunnel_of_drained (P := fun c => ∃ events, SendsOff L full s c events)
    ⟨events, hdrained⟩ ?_
  refine encodeConnections_induction (P := fun c => ∃ events, SendsOff L full s c events)
    (fun hnd hentries hi ht hstate _ h => ?_) (fun i h => ?_) _ _ hready'.nodup hready'.entries
    ⟨events, hdrained⟩
  · obtain ⟨events, h⟩ := h
    exact h.encodeTo hnd hentries hi ht hstate
  · obtain ⟨events, h⟩ := h
    exact ⟨events, h.trace, h.sends, h.moves⟩

/-! ### Updates -/

theorem Intake.tunnel {handler : Controller → Command → Controller} {env : PumpEnv} {t : Taking}
    (h : Intake handler env conns c t c') : ∃ ref, conns 0 = some ref := by
  cases h with
  | nothing ht | goesOn ht | ends ht => exact ⟨_, (lookup_eq_some ht).2⟩
  | starts _ hstarts =>
    cases hstarts with
    | nothing ht | command ht | data ht => exact ⟨_, (lookup_eq_some ht).2⟩

/-- The pump is ready to send. -/
theorem PumpReady.intake {env : PumpEnv} {tag : ℕ} {t : Taking} (h : PumpReady conns c)
    (hintake : Intake (onTaggedCommand tag env.connect) env conns c t c') : PumpReady conns c' := by
  obtain ⟨ref, htunnel⟩ := hintake.tunnel
  have hpumping : Pumping Slot.ref ref conns c :=
    ⟨h, fun _ _ hconns => Option.some.inj (hconns.symm.trans htunnel)⟩
  exact (conveys_intake isKey_ref hpumping hintake).2.toPumpReady

/-- **An orderly update is a turn**, in which the messages that it loses are lost. -/
theorem turn_of_exchange {env : Env} {a' : Controller} (h : Coherent s) (hx : Exchange s env a')
    (hG : Orderly s env a') (hL : Loses L s env a') :
    ReusedIds.Turn L s.world (s.after env a').world := by
  cases updateFor_parts h.wellFormedA hx.update with
  | waits hpoll hrun htaking =>
    obtain ⟨events, htrace, hqueues, hmoves⟩ :=
      moves_announced (L := L) h.wellFormedA hpoll hG.given_nodup hG.given_unused hrun
    have hevents := newEvents_eq htrace
    have hafter : s.after env a' = { s with a := a' } := by
      unfold System.after
      rw [htaking, hevents, sentPackets_of_queues hqueues, List.append_nil]
      rfl
    obtain ⟨hsweep, hnew⟩ := sweep_poll hpoll
    refine ⟨_, hsweep, fun e he => ?_, hafter ▸ hmoves fun e he => hG.closed e (hevents ▸ he)⟩
    obtain ⟨t, ht, rfl⟩ := List.mem_map.mp he
    exact hnew t ht
  | @pumps m c₁ c₂ conns hpoll hrun hconns hentry hintake =>
    have hready₁ : PumpReady conns c₁ :=
      (hrun.wellFormed (WellFormed.sort (h.wellFormedA.poll hpoll))).pumpReady hconns
    have hready₂ : PumpReady conns c₂ := hready₁.intake hintake
    obtain ⟨ref, htunnel⟩ := hintake.tunnel
    obtain ⟨events₁, htrace₁, hqueues, hannounced⟩ :=
      moves_announced (L := L) h.wellFormedA hpoll hG.given_nodup hG.given_unused hrun
    obtain ⟨events₂', hopens, -⟩ := opens_intake hintake
    have hsuffix : c₁.trace <:+ (sendToTunnel conns c₂).trace :=
      .trans ⟨events₂', hopens.trace.symm⟩ (sendToTunnel_trace conns c₂)
    obtain ⟨-, hbusy, T, hsettled⟩ := (h.entered hG.given_nodup hG.given_unused
      (beforeTransfer_of_pumpEntry hentry) hsuffix hG.closed).resolve_left (by
        rintro ⟨cause, -, heq⟩
        exact Sum.inl_ne_inr heq.symm)
    have hfull (hq : cmdqLength c₁.pump.cmdQueue = c₁.pump.cmdQueue.cap) :
        env.full s.a = true := by
      unfold Env.full
      rw [hentry]
      exact beq_iff_eq.mpr hq
    obtain ⟨events₂, htrace₂, hpackets₂, hencodes₂, hreceived⟩ :=
      moves_intake (L := L) (s := { s with a := c₁ }) hsettled
        (hrun.wellFormed (WellFormed.sort (h.wellFormedA.poll hpoll))) hconns hbusy hfull hx.honest
        hintake
    let s₂ : System := { s with
      a := c₂, toA := (env.taking s.a).left s.toA (c₂.pump.sendingTo = -1) }
    obtain ⟨events₃, hsent⟩ : ∃ events,
        SendsOff L (env.full s.a) s₂ (sendToTunnel conns c₂) events :=
      sendsOff_sendToTunnel hready₂ htunnel
    have hevents : s.newEvents (sendToTunnel conns c₂) = events₃ ++ events₂ ++ events₁ :=
      newEvents_eq (by
        rw [hsent.trace, List.append_assoc, List.append_assoc, ← htrace₁, ← htrace₂])
    have hpackets : sentPackets (s.newEvents (sendToTunnel conns c₂)) = sentPackets events₃ := by
      rw [hevents, sentPackets_append, sentPackets_append, sentPackets_of_queues hqueues, hpackets₂]
      rfl
    have hsupported : Supported s₂ events₃ := by
      intro e he i hi
      have hencoded := hG.encoded e
        (hevents ▸ List.mem_append_left _ (List.mem_append_left _ he)) i hi
      rwa [hpackets] at hencoded
    have hafter : s.after env (sendToTunnel conns c₂) =
        { s₂ with a := sendToTunnel conns c₂, toB := s.toB ++ sentPackets events₃ } := by
      unfold System.after
      rw [hpackets, (sendToTunnel_sent hready₂.nodup hready₂.entries).2]
    unfold Loses at hL
    rw [hevents] at hL
    have hclosed := hevents ▸ hG.closed
    obtain ⟨hsweep, hnew⟩ := sweep_poll hpoll
    refine ⟨_, hsweep, fun e he => ?_, hafter ▸ .trans (.trans (hannounced fun e he => ?_)
      (hreceived fun e he => ⟨?_, ?_⟩)) (hsent.moves (fun e he => ?_) hsupported)⟩
    · obtain ⟨t, ht, rfl⟩ := List.mem_map.mp he
      exact hnew t ht
    · exact hclosed e (List.mem_append_right _ he)
    · exact hclosed e (List.mem_append_left _ (List.mem_append_right _ he))
    · exact hL e (List.mem_append_left _ (List.mem_append_right _ he))
    · exact hL e (List.mem_append_left _ (List.mem_append_left _ he))

end OsTasks.PortForwarding
