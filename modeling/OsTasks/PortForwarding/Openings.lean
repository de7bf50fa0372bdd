import OsTasks.PortForwarding.UpdateTraffic

/-!
# The way of a client to the service

A client is accepted, announced by `CMD_NEW` through the queue and the tunnel, and the peer opens a
connection to the service for it. Every part of an update moves it forward on this way, or makes it
leave.

## Main definitions

* `toOpen`, `Packet.opens`, `PumpEvent.opens`: the ways to a connection to the service: a client
  that is not announced, a queued `CMD_NEW` or one on its way, and the connection that has been
  opened.
* `CountsOpenings`: how a part of an update moves the clients along this way.

## Main results

* `opens_poll`, `opens_announceRun`, `opens_intake`, `opens_sendToTunnel`: the parts of an update.
-/

namespace OsTasks.PortForwarding

variable {c c' c'' : Controller} {events later : List PumpEvent} {conns : Conns}

/-! ### The way to the service -/

/-- The connection is a client with the tag that is not announced. -/
def Slot.opens (tag : ℕ) (s : Slot) : Bool := s.conn.state.new && s.inc == tag

/-- The command is a `CMD_NEW` for a client. -/
def Command.opens (tag : ℕ) (command : Command) : Bool :=
  command.cmd == cmdNew && command.tag == tag

/-- The frame is a `CMD_NEW` for a client. -/
def Packet.opens (tag : ℕ) (p : Packet) : Bool :=
  match p.start with
  | .command cmd _ => cmd == cmdNew && p.tag == tag
  | .data _ => false

/-- A connection to the service is opened for a client. -/
def PumpEvent.opens (tag : ℕ) : PumpEvent → Bool
  | .handled command none _ true => command.tag == tag
  | _ => false

/-- The client is not announced, or its `CMD_NEW` is queued. -/
def toOpen (tag : ℕ) (c : Controller) : ℕ :=
  c.slots.countP (Slot.opens tag) + c.pump.cmdQueue.contents.countP (Command.opens tag)

/-- How many connections of the endpoint are for a client. -/
def servingTag (tag : ℕ) (slots : List Slot) : ℕ := slots.countP fun s => s.inc == tag

/-- A client with the tag comes between two states of an accepting endpoint. -/
def comes (tag : ℕ) (c c' : Controller) : ℕ :=
  if 0 ≤ c.manager.acceptor ∧ c.manager.nextRef ≤ tag ∧ tag < c'.manager.nextRef then 1 else 0

/-- How a part of an update moves the clients along the way to the service. -/
structure CountsOpenings (c c' : Controller) (events : List PumpEvent) : Prop where
  trace : c'.trace = events ++ c.trace
  acceptor : c'.manager.acceptor = c.manager.acceptor
  nextRef : c.manager.nextRef ≤ c'.manager.nextRef
  toOpen : ∀ tag, (sentPackets events).countP (Packet.opens tag) + toOpen tag c' ≤
    toOpen tag c + comes tag c c'
  serving : ∀ tag, servingTag tag c'.slots ≤
    servingTag tag c.slots + events.countP (PumpEvent.opens tag) + comes tag c c'

theorem CountsOpenings.refl (c : Controller) : CountsOpenings c c [] :=
  ⟨rfl, rfl, Nat.le_refl _, fun tag => by simp [sentPackets], fun tag => by simp⟩

theorem comes_add (tag : ℕ) (hacceptor : c'.manager.acceptor = c.manager.acceptor)
    (hnext : c.manager.nextRef ≤ c'.manager.nextRef)
    (hnext' : c'.manager.nextRef ≤ c''.manager.nextRef) :
    comes tag c c' + comes tag c' c'' ≤ comes tag c c'' := by
  unfold comes
  rw [hacceptor]
  split_ifs <;> omega

theorem CountsOpenings.trans (h : CountsOpenings c c' events) (h' : CountsOpenings c' c'' later) :
    CountsOpenings c c'' (later ++ events) where
  trace := by rw [h'.trace, h.trace, List.append_assoc]
  acceptor := h'.acceptor.trans h.acceptor
  nextRef := h.nextRef.trans h'.nextRef
  toOpen tag := by
    have := h.toOpen tag
    have := h'.toOpen tag
    have := comes_add tag h.acceptor h.nextRef h'.nextRef
    rw [sentPackets_append, List.countP_append]
    omega
  serving tag := by
    have := h.serving tag
    have := h'.serving tag
    have := comes_add tag h.acceptor h.nextRef h'.nextRef
    rw [List.countP_append]
    omega

/-! ### Parts of an update -/

/-- The client is the same, and has been announced or not. -/
def SameClient (s s' : Slot) : Prop := s'.inc = s.inc ∧ s'.conn.state.new = s.conn.state.new

theorem countP_of_forall₂ {p : Slot → Bool} {slots slots' : List Slot}
    (h : List.Forall₂ SameClient slots slots') (hp : ∀ s s', SameClient s s' → p s' = p s) :
    slots'.countP p = slots.countP p := by
  induction h with
  | nil => rfl
  | cons hs _ ih => rw [List.countP_cons, List.countP_cons, ih, hp _ _ hs]

theorem opens_same (tag : ℕ) {s s' : Slot} (h : SameClient s s') :
    Slot.opens tag s' = Slot.opens tag s := by
  unfold Slot.opens
  rw [h.1, h.2]

theorem servingTag_same (tag : ℕ) {slots slots' : List Slot}
    (h : List.Forall₂ SameClient slots slots') : servingTag tag slots' = servingTag tag slots :=
  countP_of_forall₂ h fun s s' hs => by rw [hs.1]

/-- A part that changes connections without announcing them. -/
theorem opens_of_same (hslots : List.Forall₂ SameClient c.slots c'.slots)
    (hqueue : ∀ tag, c'.pump.cmdQueue.contents.countP (Command.opens tag) ≤
      c.pump.cmdQueue.contents.countP (Command.opens tag))
    (hacceptor : c'.manager.acceptor = c.manager.acceptor)
    (hnext : c.manager.nextRef ≤ c'.manager.nextRef) (htrace : c'.trace = events ++ c.trace)
    (hpackets : ∀ tag, (sentPackets events).countP (Packet.opens tag) = 0) :
    CountsOpenings c c' events where
  trace := htrace
  acceptor := hacceptor
  nextRef := hnext
  toOpen tag := by
    have := hqueue tag
    unfold toOpen
    rw [hpackets, countP_of_forall₂ hslots fun _ _ => opens_same tag]
    omega
  serving tag := by
    rw [servingTag_same tag hslots]
    omega

theorem forall₂_same_modify {ref : ℕ} {f : Connection → Connection}
    (hf : ∀ conn, (f conn).state.new = conn.state.new) :
    List.Forall₂ SameClient c.slots (c.modify ref f).slots := by
  refine forall₂_modify fun s _ => ⟨inc_modifySlot .., ?_⟩
  unfold modifySlot
  split_ifs
  · exact hf s.conn
  · rfl

theorem opens_modify (ref : ℕ) {f : Connection → Connection}
    (hf : ∀ conn, (f conn).state.new = conn.state.new) : CountsOpenings c (c.modify ref f) [] :=
  opens_of_same (forall₂_same_modify hf) (fun _ => Nat.le_refl _) rfl (Nat.le_refl _) rfl
    fun _ => rfl

theorem opens_note (c : Controller) {e : PumpEvent} (he : ∀ tag, (sentPackets [e]).countP
    (Packet.opens tag) = 0) : CountsOpenings c (c.note e) [e] :=
  opens_of_same (List.forall₂_same.mpr fun _ _ => ⟨rfl, rfl⟩) (fun _ => Nat.le_refl _) rfl
    (Nat.le_refl _) rfl he

/-- **Polling.** Connections that are marked for deletion go, and a client may come. -/
theorem opens_poll {env : PollEnv} {m : Manager} (hpoll : cmPoll env c.manager = .ok (m, .none)) :
    CountsOpenings c { c with manager := m } [] ∧
      ∀ tag, servingTag tag m.slots ≤ servingTag tag (undeleted c.slots) +
        comes tag c { c with manager := m } := by
  obtain ⟨ready, new, -, -, hslots, hacceptor, hnew⟩ := slots_of_cmPoll hpoll
  change m.slots = c.slots.filterMap _ ++ new at hslots
  have hturn {p : Slot → Bool} (hp : ∀ s s', SlotRun s s' → p s' = p s) :
      (c.slots.filterMap (pollTurn env.sockets ready)).countP p ≤ (undeleted c.slots).countP p := by
    unfold undeleted
    rw [List.countP_filterMap, List.countP_filter]
    refine List.countP_mono_left fun s _ hs => ?_
    cases hturn : pollTurn env.sockets ready s with
    | none => simp [hturn] at hs
    | some s' =>
      have hdel : s.conn.state.delete = false := by
        have hnone := pollTurn_eq_none_iff env.sockets ready s
        rw [hturn] at hnone
        exact Bool.eq_false_of_not_eq_true fun hdel => Option.some_ne_none s' (hnone.mpr hdel)
      have hsame := hp s s' (pollTurn_slotRun hturn)
      simp only [hturn, Option.map_some, Option.getD_some] at hs
      simp [← hsame, hs, hdel]
  have hopens (tag : ℕ) (s s' : Slot) (hrun : SlotRun s s') :
      Slot.opens tag s' = Slot.opens tag s := by
    unfold Slot.opens
    rw [hrun.keeps.new, hrun.keeps.inc]
  have hserves (tag : ℕ) (s s' : Slot) (hrun : SlotRun s s') :
      (s'.inc == tag) = (s.inc == tag) := by
    rw [hrun.keeps.inc]
  have hfresh (p : Slot → Bool) (tag : ℕ) (hp : ∀ s, p s = true → s.inc = tag) :
      new.countP p ≤ comes tag c { c with manager := m } := by
    rcases hnew with ⟨rfl, -⟩ | ⟨haccepts, s, rfl, hf, hnext⟩
    · exact Nat.zero_le _
    · by_cases hs : p s = true
      · have htag : c.manager.nextRef = tag := hf.inc.symm.trans (hp s hs)
        have hcomes : comes tag c { c with manager := m } = 1 :=
          if_pos ⟨haccepts, htag.le, htag ▸ hnext.ge⟩
        rw [hcomes]
        exact List.countP_le_length
      · rw [List.countP_eq_zero.mpr (by simpa using hs)]
        exact Nat.zero_le _
  have hundeleted (p : Slot → Bool) : (undeleted c.slots).countP p ≤ c.slots.countP p :=
    List.filter_sublist.countP_le
  have hserving (tag : ℕ) : servingTag tag m.slots ≤ servingTag tag (undeleted c.slots) +
      comes tag c { c with manager := m } := by
    have := hturn (hserves tag)
    have := hfresh (fun s => s.inc == tag) tag fun s hs => by simpa using hs
    unfold servingTag
    rw [hslots, List.countP_append]
    omega
  refine ⟨⟨rfl, hacceptor, ?_, fun tag => ?_, fun tag => ?_⟩, hserving⟩
  · rcases hnew with ⟨-, hnext⟩ | ⟨-, -, -, -, hnext⟩ <;> dsimp only <;> omega
  · have := hturn (hopens tag)
    have := hfresh (Slot.opens tag) tag fun s hs => by
      unfold Slot.opens at hs
      simp only [Bool.and_eq_true, beq_iff_eq] at hs
      exact hs.2
    have := hundeleted (Slot.opens tag)
    change 0 + (m.slots.countP _ + _) ≤ c.slots.countP _ + _ + _
    rw [hslots, List.countP_append]
    dsimp only
    omega
  · have := hserving tag
    have : servingTag tag (undeleted c.slots) ≤ servingTag tag c.slots := hundeleted _
    rw [List.countP_nil]
    exact (hserving tag).trans (by omega)

/-- Sorting. -/
theorem opens_sort (hwf : WellFormed c) : CountsOpenings c c.sort [] := by
  refine opens_of_same (hwf.sort_assigns.forall₂.1.imp fun s s' hs => ?_) (fun _ => Nat.le_refl _)
    rfl (Nat.le_refl _) rfl fun _ => rfl
  obtain rfl | ⟨-, id, -, rfl⟩ := hs <;> exact ⟨rfl, rfl⟩

/-- **An announcement.** A client that is announced by `CMD_NEW` is not new any more. -/
theorem opens_announceStep (hwf : WellFormed c) (h : AnnounceStep c c') :
    ∃ events, CountsOpenings c c' events ∧ ∀ tag, events.countP (PumpEvent.opens tag) = 0 := by
  cases h with
  | @announce s cmd conn q hs hid hdel hann hq =>
    refine ⟨[.queued s cmd], ⟨rfl, rfl, Nat.le_refl _, fun tag => ?_, fun tag => ?_⟩,
      fun tag => rfl⟩
    · obtain ⟨l₁, l₂, hl, hmod⟩ := modifyConn_eq_append hwf.nodup hs fun _ => conn
      have hslots : (c.announce s cmd conn q).slots = l₁ ++ { s with conn := conn } :: l₂ := hmod
      have hcontents := contents_cmdqEnqueue hq
      have hqueue : (c.announce s cmd conn q).pump.cmdQueue.contents =
          c.pump.cmdQueue.contents ++ [⟨cmd, toByte s.conn.id, s.inc⟩] := hcontents
      have hmoves : (if Slot.opens tag { s with conn := conn } = true then 1 else 0) +
          [(⟨cmd, toByte s.conn.id, s.inc⟩ : Command)].countP (Command.opens tag) ≤
          if Slot.opens tag s = true then 1 else 0 := by
        unfold Slot.opens Command.opens
        cases hann with
        | new hnew => simp [hnew]
        | close hnew => simp [hnew, cmdClose, cmdNew]
        | closeIn hnew => simp [hnew, cmdCloseSrcToDst, cmdNew]
        | closeOut hnew => simp [hnew, cmdCloseDstToSrc, cmdNew]
      unfold toOpen
      simp only [hslots, hqueue, hl, List.countP_append, List.countP_cons]
      change 0 + _ ≤ _
      rw [List.countP_singleton] at hmoves
      simp only [List.countP_nil]
      omega
    · have hsame : servingTag tag (c.announce s cmd conn q).slots = servingTag tag c.slots := by
        unfold servingTag
        rw [slots_announce, List.countP_map]
        exact List.countP_congr fun t _ => by simp
      rw [hsame]
      omega

theorem opens_announceRun (hwf : WellFormed c) (h : AnnounceRun c c') :
    ∃ events, CountsOpenings c c' events ∧ ∀ tag, events.countP (PumpEvent.opens tag) = 0 := by
  induction h with
  | refl => exact ⟨[], .refl c, fun _ => rfl⟩
  | tail hrun hlast ih =>
    obtain ⟨events, hopens, hnone⟩ := ih
    obtain ⟨later, hopens', hnone'⟩ := opens_announceStep (AnnounceRun.wellFormed hrun hwf) hlast
    refine ⟨later ++ events, hopens.trans hopens', fun tag => ?_⟩
    rw [List.countP_append, hnone, hnone']

/-! ### Taking frames -/

theorem new_commandChange (cmd : UInt8) (conn : Connection) :
    (commandChange cmd conn).state.new = conn.state.new := by
  unfold commandChange
  split_ifs <;> simp

theorem countP_sendOrWarn {command : Command} (hcmd : command.cmd ≠ cmdNew) (c : Controller)
    (tag : ℕ) : (sendOrWarn c command).pump.cmdQueue.contents.countP (Command.opens tag) =
      c.pump.cmdQueue.contents.countP (Command.opens tag) := by
  unfold sendOrWarn sendCommand
  cases hq : cmdqEnqueue c.pump.cmdQueue command with
  | none => rfl
  | some q =>
    change q.contents.countP _ = _
    rw [contents_cmdqEnqueue hq, List.countP_append, List.countP_singleton, Command.opens,
      beq_eq_false_iff_ne.mpr hcmd]
    rfl

theorem acceptor_cmConnect (env : ConnectEnv) (m : Manager) (inBufSize outBufSize : ℕ+) (id : ℤ)
    (inc : ℕ) : (cmConnect env m inBufSize outBufSize id inc).2.acceptor = m.acceptor := by
  unfold cmConnect cmAddConnection
  split
  · rfl
  split
  · rfl
  split
  · rfl
  dsimp only
  split
  · split <;> rename_i hadd
    · rfl
    · exact Option.some.inj hadd ▸ rfl
  · rfl

/-- **A command.** Only `CMD_NEW` opens a connection, for the client that it is about. -/
theorem opens_onCommand (env : ConnectEnv) (c : Controller) (command : Command) :
    ∃ e, CountsOpenings c (onCommand env c command) [e] ∧ ∀ tag, e.opens tag = true →
      command.cmd = cmdNew ∧ command.tag = tag := by
  cases htarget : commandTarget c command with
  | some s =>
    refine ⟨.handled command (some s) c.freeIds false, ?_, fun tag h => absurd h Bool.false_ne_true⟩
    rw [onCommand_of_some htarget]
    exact opens_of_same (forall₂_same_modify (new_commandChange command.cmd))
      (fun _ => Nat.le_refl _) rfl (Nat.le_refl _) rfl fun _ => rfl
  | none =>
    by_cases hcmd : command.cmd = cmdNew
    · let r := cmConnect env c.manager c.bufSize c.bufSize (command.arg.toNat : ℤ) command.tag
      let c₁ : Controller := { c.note (.handled command none c.freeIds r.1) with manager := r.2 }
      let answer : Command := ⟨if r.1 then cmdAck else cmdClose, command.arg, command.tag⟩
      have hc' : onCommand env c command = sendOrWarn c₁ answer := onCommand_new htarget hcmd
      have hanswer : answer.cmd ≠ cmdNew := by
        change (if r.1 = true then cmdAck else cmdClose) ≠ cmdNew
        split_ifs <;> decide
      obtain ⟨q, hq⟩ := sendOrWarn_eq c₁ answer
      have hqueue (tag : ℕ) := countP_sendOrWarn hanswer c₁ tag
      have hacceptor : r.2.acceptor = c.manager.acceptor := acceptor_cmConnect ..
      refine ⟨.handled command none c.freeIds r.1, ?_, fun tag h => ⟨hcmd, ?_⟩⟩
      · rw [hc']
        rcases cmConnect_slots env c.manager c.bufSize c.bufSize (command.arg.toNat : ℤ)
            command.tag with ⟨-, hslots, hnext⟩ | ⟨hopened, s, hslots, hfresh, hnext⟩
        · refine opens_of_same ?_ (fun tag => (hqueue tag).le) (by rw [hq]; exact hacceptor)
            (by rw [hq]; exact hnext) (by rw [hq]; rfl) fun _ => rfl
          rw [hq]
          change List.Forall₂ SameClient c.manager.slots r.2.slots
          rw [hslots]
          exact List.forall₂_same.mpr fun _ _ => ⟨rfl, rfl⟩
        · have hslots' : (sendOrWarn c₁ answer).slots = c.slots ++ [s] := by
            rw [hq]
            exact hslots
          refine ⟨by rw [hq]; rfl, by rw [hq]; exact hacceptor, ?_, fun tag => ?_, fun tag => ?_⟩
          · rw [hq]
            exact (Nat.le_succ _).trans hnext.ge
          · have hs : Slot.opens tag s = false := by rw [Slot.opens, hfresh.state]; rfl
            unfold toOpen
            rw [hslots', hqueue, List.countP_append, List.countP_singleton, hs]
            exact (Nat.zero_add _).trans_le (Nat.le_add_right _ _)
          · have hs : (s.inc == tag) =
                PumpEvent.opens tag (.handled command none c.freeIds r.1) := by
              have hr : r.1 = true := hopened
              rw [hfresh.inc, hr]
              rfl
            unfold servingTag
            rw [hslots', List.countP_append, List.countP_singleton, List.countP_singleton, hs]
            exact Nat.le_add_right _ _
      · cases hr : r.1 with
        | true =>
          rw [hr] at h
          exact beq_iff_eq.mp h
        | false =>
          rw [hr] at h
          exact absurd h Bool.false_ne_true
    · refine ⟨.handled command none c.freeIds false, ?_, fun tag h => absurd h Bool.false_ne_true⟩
      rw [onCommand_of_none htarget hcmd]
      exact opens_note c fun _ => rfl

/-- The `CMD_NEW` for a client at the start of a frame with a tag. -/
def opensStart (tag τ : ℕ) (start : Option FrameStart) : ℕ :=
  (start.toList.map fun start => (⟨start, tag⟩ : Packet)).countP (Packet.opens τ)

/-- Bytes of a frame are delivered. -/
theorem opens_deliver (c : Controller) (env : PumpEnv) (id : ℕ) (tunnel target : Slot) :
    ∃ e, CountsOpenings c (c.deliver env id tunnel target) [e] ∧ ∀ tag, e.opens tag = false := by
  let r := decode env.wild tunnel.conn.inBuf target.conn.outBuf
  refine ⟨.delivered id 0 target (r.2.2.contents.drop target.conn.outBuf.length), ?_, fun _ => rfl⟩
  have hmodify := (opens_modify (c := c) tunnel.ref (f := fun conn => { conn with inBuf := r.2.1 })
    fun _ => rfl).trans (opens_modify target.ref (f := fun conn => { conn with outBuf := r.2.2 })
      fun _ => rfl)
  have hdeliver := hmodify.trans (opens_note _ (e := .delivered id 0 target
    (r.2.2.contents.drop target.conn.outBuf.length)) fun _ => rfl)
  exact ⟨hdeliver.trace, rfl, Nat.le_refl _, hdeliver.toOpen, hdeliver.serving⟩

/-- A command frame is taken and handled. -/
theorem opens_handleFrame (c : Controller) (env : ConnectEnv) (tag : ℕ) (tunnel : Slot)
    (cmd arg : UInt8) :
    ∃ events, CountsOpenings c (c.handleFrame (onTaggedCommand tag env) tunnel cmd arg) events ∧
      ∀ τ, events.countP (PumpEvent.opens τ) ≤ opensStart tag τ (some (.command cmd arg)) := by
  obtain ⟨e, hcommand, he⟩ := opens_onCommand env ((c.modify tunnel.ref fun conn =>
    { conn with inBuf := bufAdvanceReadPtr tunnel.conn.inBuf 3 }).note (.received cmd arg))
      ⟨cmd, arg, tag⟩
  have hbefore := (opens_modify (c := c) tunnel.ref (f := fun conn =>
    { conn with inBuf := bufAdvanceReadPtr tunnel.conn.inBuf 3 }) fun _ => rfl).trans
      (opens_note _ (e := .received cmd arg) fun _ => rfl)
  refine ⟨_, (hbefore.trans hcommand).trans (opens_modify tunnel.ref (f := fun conn =>
    { conn with inBuf := bufAdvanceReadPtr conn.inBuf 2 }) fun _ => rfl), fun τ => ?_⟩
  change [e, .received cmd arg].countP _ ≤ _
  unfold opensStart
  rw [List.countP_cons, List.countP_singleton, Option.toList_some, List.map_singleton,
    List.countP_singleton]
  have hreceived : PumpEvent.opens τ (.received cmd arg) = false := rfl
  by_cases hτ : e.opens τ = true
  · obtain ⟨hcmd, htag⟩ := he τ hτ
    have hpacket : Packet.opens τ ⟨.command cmd arg, tag⟩ = true := by
      change (cmd == cmdNew && tag == τ) = true
      rw [show cmd = cmdNew from hcmd, show tag = τ from htag]
      simp
    rw [hτ, hreceived, hpacket]
    decide
  · rw [if_neg hτ, hreceived]
    exact Nat.zero_le _

theorem opens_startsFrame {env : PumpEnv} {tag : ℕ} {start : Option FrameStart}
    (h : StartsFrame (onTaggedCommand tag env.connect) env conns c start c') :
    ∃ events, CountsOpenings c c' events ∧
      ∀ τ, events.countP (PumpEvent.opens τ) ≤ opensStart tag τ start := by
  cases h with
  | nothing => exact ⟨[], .refl c, fun _ => Nat.zero_le _⟩
  | command => exact opens_handleFrame c env.connect tag _ _ _
  | @data tunnel target id =>
    obtain ⟨e, hopens, he⟩ := opens_deliver c env id.toNat tunnel.afterStart target
    refine ⟨[e], hopens, fun τ => ?_⟩
    rw [List.countP_singleton, he]
    exact Nat.zero_le _

/-- **Taking frames.** A connection is opened for the `CMD_NEW` that is taken, if for any. -/
theorem opens_intake {env : PumpEnv} {tag : ℕ} {t : Taking}
    (h : Intake (onTaggedCommand tag env.connect) env conns c t c') :
    ∃ events, CountsOpenings c c' events ∧
      ∀ τ, events.countP (PumpEvent.opens τ) ≤ opensStart tag τ t.start := by
  cases h with
  | nothing => exact ⟨[], .refl c, fun _ => Nat.zero_le _⟩
  | starts _ hstarts => exact opens_startsFrame hstarts
  | @goesOn tunnel target id =>
    obtain ⟨e, hopens, he⟩ := opens_deliver c env id tunnel target
    refine ⟨[e], hopens, fun τ => ?_⟩
    rw [List.countP_singleton, he]
    exact Nat.zero_le _
  | @ends tunnel target id _ _ _ _ _ _ _ _ hstarts =>
    obtain ⟨e, hdeliver, he⟩ := opens_deliver c env id tunnel target
    obtain ⟨events, hopens, hevents⟩ := opens_startsFrame hstarts
    refine ⟨_, hdeliver.trans hopens, fun τ => ?_⟩
    rw [List.countP_append, List.countP_singleton, he]
    exact hevents τ

/-- What is taken leaves the channel. -/
theorem opensStart_add_left (τ : ℕ) {t : Taking} {inbox : List Packet} (hhonest : t.Honest inbox)
    (idle : Bool) :
    opensStart (t.tag inbox) τ t.start + (t.left inbox idle).countP (Packet.opens τ) ≤
      inbox.countP (Packet.opens τ) := by
  have hrest : (t.rest inbox).countP (Packet.opens τ) ≤ inbox.countP (Packet.opens τ) := by
    unfold Taking.rest
    split_ifs
    · exact (List.tail_sublist inbox).countP_le
    · exact Nat.le_refl _
  refine le_trans ?_ hrest
  unfold Taking.left opensStart
  cases hstart : t.start with
  | none => exact (Nat.zero_add _).le
  | some start =>
    obtain ⟨rest, hinbox⟩ := hhonest.exists_cons hstart
    rw [hinbox, List.countP_cons, Option.toList_some, List.map_singleton, List.countP_singleton]
    cases start with
    | command cmd arg => exact (Nat.add_comm _ _).le
    | data id =>
      have hdata : Packet.opens τ ⟨.data id, t.tag inbox⟩ = false := rfl
      rw [hdata, if_neg Bool.false_ne_true, Nat.zero_add, Nat.add_zero]
      cases idle with
      | true => exact Nat.le_refl _
      | false => exact (List.countP_cons_of_neg (hdata ▸ Bool.false_ne_true)).le

/-! ### Sending -/

theorem countP_dequeue (tag : ℕ) (hqueue : cmdqLength c.pump.cmdQueue ≠ 0) :
    c.pump.cmdQueue.contents.countP (Command.opens tag) =
      (cmdqDequeue c.pump.cmdQueue).2.contents.countP (Command.opens tag) +
        if Command.opens tag (cmdqDequeue c.pump.cmdQueue).1 = true then 1 else 0 := by
  rw [contents_cmdqDequeue hqueue, List.countP_cons]

/-- **Sending.** A queued `CMD_NEW` is sent or lost. -/
theorem opens_sendToTunnel (hnd : (c.slots.map Slot.ref).Nodup)
    (hentries : EntriesAt conns c.slots) :
    ∃ events, CountsOpenings c (sendToTunnel conns c) events ∧
      ∀ tag, events.countP (PumpEvent.opens tag) = 0 := by
  have hlost {c₁ : Controller} (hqueue : cmdqLength c₁.pump.cmdQueue ≠ 0) :
      CountsOpenings c₁ (c₁.setQueue (cmdqDequeue c₁.pump.cmdQueue).2) [] :=
    opens_of_same (List.forall₂_same.mpr fun _ _ => ⟨rfl, rfl⟩)
      (fun tag => (countP_dequeue tag hqueue).ge.trans' (Nat.le_add_right _ _)) rfl (Nat.le_refl _)
      rfl fun _ => rfl
  refine sendToTunnel_induction (P := fun c' => ∃ events, CountsOpenings c c' events ∧
      ∀ tag, events.countP (PumpEvent.opens tag) = 0) ?_ ?_ ?_ ?_ ?_ hnd hentries
        ⟨[], .refl c, fun _ => rfl⟩
  · rintro c₁ hqueue ⟨events, hopens, hnone⟩
    exact ⟨events, hopens.trans (hlost hqueue), hnone⟩
  · rintro c₁ tunnel hqueue ⟨events, hopens, hnone⟩
    let command := (cmdqDequeue c₁.pump.cmdQueue).1
    let f : Connection → Connection := fun conn =>
      { conn with outBuf := (encodeCommand tunnel.conn.outBuf command.cmd command.arg).2 }
    have hsame : List.Forall₂ SameClient c₁.slots (c₁.modify tunnel.ref f).slots :=
      forall₂_same_modify fun _ => rfl
    have hsent : CountsOpenings c₁
        (((c₁.setQueue (cmdqDequeue c₁.pump.cmdQueue).2).modify tunnel.ref
        f).note (.sent command)) [.sent command] := by
      refine ⟨rfl, rfl, Nat.le_refl _, fun tag => ?_, fun tag => ?_⟩
      · have hpacket : (sentPackets [.sent command]).countP (Packet.opens tag) =
            if Command.opens tag command = true then 1 else 0 := List.countP_singleton
        have hqueued : c₁.pump.cmdQueue.contents.countP (Command.opens tag) =
            (cmdqDequeue c₁.pump.cmdQueue).2.contents.countP (Command.opens tag) +
              if Command.opens tag command = true then 1 else 0 := countP_dequeue tag hqueue
        have hslots := countP_of_forall₂ hsame fun _ _ => opens_same tag
        unfold toOpen
        change (sentPackets _).countP _ + ((c₁.modify tunnel.ref f).slots.countP _ +
          (cmdqDequeue c₁.pump.cmdQueue).2.contents.countP _) ≤ _
        rw [hpacket, hslots]
        omega
      · exact (servingTag_same tag hsame).le.trans (by omega)
    exact ⟨_, hopens.trans hsent, hnone⟩
  · rintro c₁ hqueue ⟨events, hopens, hnone⟩
    exact ⟨_, (hopens.trans (hlost hqueue)).trans (opens_note _ fun _ => rfl), hnone⟩
  · rintro c₁ i s tunnel - - - - - - ⟨events, hopens, hnone⟩
    let f : Connection → Connection := fun conn =>
      { conn with inBuf := (encode s.conn.inBuf tunnel.conn.outBuf (toByte s.conn.id)).2.1 }
    let g : Connection → Connection := fun conn =>
      { conn with outBuf := (encode s.conn.inBuf tunnel.conn.outBuf (toByte s.conn.id)).2.2 }
    have hmodify := (opens_modify (c := c₁) s.ref (f := f) fun _ => rfl).trans
      (opens_modify tunnel.ref (f := g) fun _ => rfl)
    unfold Controller.encodeTo
    dsimp only
    split_ifs
    · exact ⟨_, hopens.trans hmodify, hnone⟩
    · exact ⟨_, (hopens.trans hmodify).trans (opens_note _ fun _ => rfl), hnone⟩
  · rintro c₁ i ⟨events, hopens, hnone⟩
    exact ⟨events, ⟨hopens.trace, hopens.acceptor, hopens.nextRef, hopens.toOpen, hopens.serving⟩,
      hnone⟩

end OsTasks.PortForwarding
