import OsTasks.PortForwarding.Progress
import OsTasks.PortForwarding.Resume
import OsTasks.PortForwarding.Sending

/-!
# Wake-ups

`recv_from_tunnel` takes one frame in an update, and `poll` waits without a limit. When more than
one frame has come with one read, the rest can be handled only if something ends the wait: an output
for which `POLLOUT` is requested. What the handled frame leaves in the outputs decides this.

## Main definitions

* `Processable`: the frame at the front of the tunnel could be handled now.
* `Armed`: an output that ends the wait.
* `Woken`: no frame waits in the tunnel without something that ends the wait.
* `Wakes`: the handled frame leaves something to write.
* `Guarded`: what is asked of an update.

## Main results

* `woken_of_guarded`: no wake-up is lost in a run in which every frame that is handled with another
  one behind it leaves something to write.
* `not_woken_twoAcks`: a wake-up that is lost after two commands have come together.
-/

namespace OsTasks.PortForwarding

/-! ### The connections at the call of `poll` -/

/-- The connections that are left when those marked for deletion have been removed. -/
def remaining (slots : List Slot) : List Slot := slots.filter fun s => !s.conn.state.delete

/-- A connection at the call of `poll`. -/
def polled (s : Slot) : Slot := armOutput (closeSocket s).1

theorem enterSlot_eq (s : Slot) :
    enterSlot s = if s.conn.state.delete then none else some (polled s) := by
  have henter : enterSlot s =
      if shouldDelete (closeSocket s).1.conn.state then none else some (polled s) := rfl
  cases hdel : s.conn.state.delete with
  | true => exact (enterSlot_eq_none_iff s).mpr hdel
  | false =>
    rw [henter]
    refine if_neg fun hdelete => ?_
    have hnone := (enterSlot_eq_none_iff s).mp (henter.trans (if_pos hdelete))
    exact Bool.false_ne_true (hdel.symm.trans hnone)

theorem slots_beforePoll_eq (m : Manager) :
    (beforePoll m).slots = (remaining m.slots).map polled := by
  rw [slots_beforePoll, remaining]
  induction m.slots with
  | nil => rfl
  | cons s slots ih =>
    rw [List.filterMap_cons, List.filter_cons, ih, enterSlot_eq]
    cases s.conn.state.delete <;> rfl

/-- Until the call of `poll` nothing is moved. -/
theorem polled_keeps (s : Slot) : (polled s).conn.id = s.conn.id ∧
    (polled s).conn.inBuf = s.conn.inBuf ∧ (polled s).conn.outBuf = s.conn.outBuf := by
  unfold polled
  rw [conn_armOutput]
  rcases closeSocket_cases s with ⟨-, h⟩ | ⟨-, -, h⟩ | ⟨-, -, h⟩ <;> rw [h] <;>
    exact ⟨rfl, rfl, rfl⟩

theorem lastWithId_filter {i : ℕ} {slots : List Slot} {p : Slot → Bool} {s : Slot}
    (hlast : lastWithId i slots = some s) (hs : p s = true) :
    lastWithId i (slots.filter p) = some s := by
  rw [← List.filterMap_eq_filter]
  refine lastWithId_filterMap (fun t t' ht => ?_) hlast ?_
  · rw [(Option.guard_eq_some_iff.mp ht).1]
  · exact Option.guard_eq_some_iff.mpr ⟨rfl, hs⟩

/-- A living output: the connection is not marked for deletion, and neither has the direction
ended. -/
def Living (s : Slot) : Prop := s.conn.state.delete = false ∧ isAlive s.conn.outState = true

instance : DecidablePred Living := fun _ => inferInstanceAs (Decidable (_ ∧ _))

/-- `poll` waits for the output of a connection, which has bytes to write. -/
def Armed (s : Slot) : Prop :=
  s.conn.outBuf.length ≠ 0 ∧ s.pfd.events.pollout = true ∧ 0 ≤ s.pfd.fd

instance : DecidablePred Armed := fun _ => inferInstanceAs (Decidable (_ ∧ _))

theorem armed_armOutput {s : Slot} (halive : isAlive s.conn.outState = true)
    (hne : s.conn.outBuf.length ≠ 0) : Armed (armOutput s) := by
  have harm : armOutput s = { s with pfd := setPollfdFlags s.pfd { pollout := true } } := by
    unfold armOutput
    rw [if_neg (fun h => hne ((bufEmpty_iff _).mp h)), if_pos halive]
  have hmask : ({ pollout := true } : PollMask) ≠ {} := by decide
  rw [harm]
  refine ⟨hne, ?_, ?_⟩
  · simp [setPollfdFlags]
  · unfold setPollfdFlags complement
    rw [if_neg hmask]
    dsimp only
    split_ifs <;> omega

/-- **A living output with bytes to write ends the wait.** -/
theorem Living.armed {s : Slot} (h : Living s) (hok : ConnOk s.conn)
    (hne : s.conn.outBuf.length ≠ 0) : Armed (polled s) := by
  obtain ⟨heof, hclosed, hdel⟩ := (isAlive_iff _).mp h.2
  rcases closeSocket_cases s with ⟨hstate, -⟩ | ⟨-, hclose, -⟩ | ⟨-, -, hs⟩
  · exact absurd (hok.outClosed hstate) (by simp [hclosed])
  · unfold shouldCloseSocket shouldClose at hclose
    rw [hok.eof, h.1, h.2] at hclose
    simp at hclose
  · have hout : (closeSocket s).1.conn.outState = s.conn.outState := by
      rw [hs]
      change closeDirection s.conn.outState = _
      unfold closeDirection shouldClose
      rw [heof, hdel]
      rfl
    have hbuf : (closeSocket s).1.conn.outBuf = s.conn.outBuf := by
      rw [hs]
      rfl
    exact armed_armOutput (hout ▸ h.2) (hbuf ▸ hne)

/-- Some living output has bytes to write. -/
def Pending (slots : List Slot) : Prop := ∃ s ∈ slots, Living s ∧ s.conn.outBuf.length ≠ 0

instance : DecidablePred Pending := fun _ => inferInstanceAs (Decidable (∃ _ ∈ _, _))

theorem Pending.armed {c : Controller} (h : Pending c.slots) (hwf : WellFormed c) :
    ∃ s ∈ (beforePoll c.manager).slots, Armed s := by
  obtain ⟨s, hs, hliving, hne⟩ := h
  rw [slots_beforePoll_eq]
  refine ⟨polled s, List.mem_map_of_mem (List.mem_filter.mpr ⟨hs, ?_⟩),
    hliving.armed (hwf.slotOk s hs).connOk hne⟩
  rw [hliving.1]
  rfl

/-! ### Frames that could be handled -/

/-- There is room in the output of the connection that a frame is for. -/
def HasRoom (slots : List Slot) : TunnelEvent → Prop
  | .command _ _ => True
  | .data id _ =>
    ∃ target ∈ lastWithId id.toNat slots, target.conn.outBuf.length < target.conn.outBuf.capacity

/-- The frame at the front of the tunnel is there as a whole, or the rest of a frame of which a
part has been delivered, and something of it could be handled now. -/
def Processable (pump : Pump) (slots : List Slot) : Prop :=
  ∃ tunnel ∈ lastWithId 0 slots,
    if pump.sendingTo = -1 then
      3 < tunnel.conn.inBuf.length ∧
        ∃ r ∈ frameAt tunnel.conn.inBuf.contents, HasRoom slots r.1
    else
      (unstuff endByte escByte tunnel.conn.inBuf.contents).isSome ∧
        ∃ target ∈ lastWithId pump.sendingTo.toNat slots,
          target.conn.outBuf.length < target.conn.outBuf.capacity

instance (slots : List Slot) : DecidablePred (HasRoom slots)
  | .command _ _ => isTrue trivial
  | .data _ _ => inferInstanceAs (Decidable (∃ _ ∈ _, _))

instance (pump : Pump) : DecidablePred (Processable pump) :=
  fun _ => inferInstanceAs (Decidable (∃ _ ∈ _, _))

/-- **No lost wake-up**: when `poll` is called and the frame at the front of the tunnel could be
handled, `poll` waits for an output that has bytes to write. -/
def Woken (c : Controller) : Prop :=
  Processable c.pump (beforePoll c.manager).slots → ∃ s ∈ (beforePoll c.manager).slots, Armed s

instance : DecidablePred Woken := fun _ => inferInstanceAs (Decidable (_ → _))

theorem HasRoom.of_map {slots : List Slot} {e : TunnelEvent} (h : HasRoom (slots.map polled) e) :
    HasRoom slots e := by
  cases e with
  | command => trivial
  | data id bytes =>
    obtain ⟨target, htarget, hroom⟩ := h
    rw [lastWithId_map _ fun s _ => (polled_keeps s).1] at htarget
    obtain ⟨s, hs, rfl⟩ := Option.map_eq_some_iff.mp htarget
    rw [(polled_keeps s).2.2] at hroom
    exact ⟨s, hs, hroom⟩

/-- What could be handled when `poll` is called could be handled before. -/
theorem processable_of_beforePoll {pump : Pump} {m : Manager}
    (h : Processable pump (beforePoll m).slots) : Processable pump (remaining m.slots) := by
  rw [slots_beforePoll_eq] at h
  obtain ⟨tunnel, htunnel, h⟩ := h
  rw [lastWithId_map _ fun s _ => (polled_keeps s).1] at htunnel
  obtain ⟨t, ht, rfl⟩ := Option.map_eq_some_iff.mp htunnel
  refine ⟨t, ht, ?_⟩
  rw [(polled_keeps t).2.1] at h
  by_cases hsend : pump.sendingTo = -1
  · rw [if_pos hsend] at h ⊢
    obtain ⟨hlen, r, hr, hroom⟩ := h
    exact ⟨hlen, r, hr, hroom.of_map⟩
  · rw [if_neg hsend] at h ⊢
    obtain ⟨hend, target, htarget, hroom⟩ := h
    rw [lastWithId_map _ fun s _ => (polled_keeps s).1] at htarget
    obtain ⟨s, hs, rfl⟩ := Option.map_eq_some_iff.mp htarget
    rw [(polled_keeps s).2.2] at hroom
    exact ⟨hend, s, hs, hroom⟩

variable {conns : Conns} {c c₁ c₂ : Controller} {tunnel : Slot}

/-- The connection that an entry of the array points to is still the last one with its id after
bytes have gone into the tunnel. -/
theorem ConnsOk.remaining_sent (hconns : ConnsOk conns c.slots) (hnd : (c.slots.map Slot.ref).Nodup)
    (hsent : SlotsSent c.slots c₁.slots) {i : ℕ} {s : Slot} (hs : lookup c.slots conns i = some s) :
    ∃ s', lastWithId i (remaining c₁.slots) = some s' ∧ SentStep s s' := by
  obtain ⟨hlast, hdel⟩ := (hconns.lookup_iff hnd).mp hs
  obtain ⟨g, hslots, hg⟩ := hsent
  have hstep := hg s (mem_of_lastWithId hlast).1
  refine ⟨g s, lastWithId_filter ?_ ?_, hstep⟩
  · rw [hslots, lastWithId_map i fun t ht => (hg t ht).id, hlast]
    rfl
  · rw [hstep.state, hdel]
    rfl

/-- When the endpoint is stuck, no frame waits. -/
theorem Stuck.not_processable (h : Stuck conns c) (hwf : WellFormed c)
    (hconns : ConnsOk conns c.slots) (hsent : SlotsSent c.slots c₁.slots)
    (hsend : c₁.pump.sendingTo = c.pump.sendingTo) :
    ¬ Processable c₁.pump (remaining c₁.slots) := by
  obtain ⟨tunnel, htunnel, hstuck⟩ := h
  obtain ⟨tunnel', htunnel', hstep⟩ := hconns.remaining_sent hwf.nodup hsent htunnel
  have hid := hconns.entriesAt.tunnel_id hwf.nodup htunnel
  rintro ⟨t, ht, h⟩
  obtain rfl := Option.some.inj (htunnel'.symm.trans ht)
  rw [hstep.tunnelIn hid, hsend] at h
  rcases hstuck with ⟨hidle, hnone⟩ | ⟨hbusy, hnone⟩
  · rw [if_pos hidle] at h
    obtain ⟨hlen, r, hr, -⟩ := h
    rcases hnone with hfew | hnone
    · exact absurd hlen (Nat.not_lt.mpr hfew)
    · exact Option.some_ne_none r ((Option.mem_def.mp hr).symm.trans hnone)
  · rw [if_neg hbusy] at h
    obtain ⟨hend, target, htarget, hroom⟩ := h
    rcases hnone with hempty | ⟨s, hs, hfull⟩
    · rw [(RoundBuffer.contents_eq_nil_iff _).mpr hempty] at hend
      exact Bool.false_ne_true hend
    · obtain ⟨s', hs', hstep'⟩ := hconns.remaining_sent hwf.nodup hsent hs
      obtain rfl := Option.some.inj (hs'.symm.trans htarget)
      have hne : s.conn.id ≠ 0 := by
        rw [hconns.entriesAt.id hwf.nodup hs]
        have := hwf.sendingTo.resolve_left hbusy
        omega
      rw [hstep'.output hne] at hroom
      omega

/-! ### What a handled frame leaves -/

/-- A command of a certain kind that is about a connection. -/
def Hits (c : Controller) (cmds : List UInt8) (s : Slot) : TunnelEvent → Prop
  | .command cmd arg => cmd ∈ cmds ∧ (commandTarget c ⟨cmd, arg, 0⟩).map Slot.ref = some s.ref
  | .data _ _ => False

/-- A data frame that brings bytes for a connection. -/
def Brings (conns : Conns) (s : Slot) : TunnelEvent → Prop
  | .command _ _ => False
  | .data id bytes => bytes ≠ [] ∧ conns id.toNat = some s.ref

/-- A command to open a connection with an id that no connection has. -/
def Opens (c : Controller) : TunnelEvent → Prop
  | .command cmd arg => cmd = cmdNew ∧ (commandTarget c ⟨cmd, arg, 0⟩).isNone
  | .data _ _ => False

/-- There are more than `n` free places in the output that a frame is for. -/
def RoomFor (conns : Conns) (c : Controller) (id : UInt8) (n : ℕ) : Prop :=
  ∀ target ∈ lookup c.slots conns id.toNat,
    target.conn.outBuf.length + n < target.conn.outBuf.capacity

/-- A frame can be delivered as a whole. -/
def Fits (conns : Conns) (c : Controller) : TunnelEvent → Prop
  | .command _ _ => True
  | .data id bytes => RoomFor conns c id bytes.length

/-- A frame can be handled after the frame `e`. -/
def CanFollow (conns : Conns) (c : Controller) (e : TunnelEvent) : TunnelEvent → Prop
  | .command _ _ => True
  | .data id _ => RoomFor conns c id (payload id [e]).length

/-- Behind the frame `e` another one is there as a whole, and can be handled after it. -/
def Behind (conns : Conns) (c : Controller) (e : TunnelEvent) (rest : List UInt8) : Prop :=
  3 < rest.length ∧ ∃ r ∈ frameAt rest, CanFollow conns c e r.1

/-- The commands that end the output, and the input, of a connection. -/
def endOutput : List UInt8 := [cmdClose, cmdCloseSrcToDst]
def endInput : List UInt8 := [cmdClose, cmdCloseDstToSrc]

/-- The frame `e` leaves something to write: a living output that it does not end has bytes or gets
some, or there is something to send through the tunnel. -/
def Wakes (conns : Conns) (c : Controller) (tunnel : Slot) (e : TunnelEvent) : Prop :=
  (∃ s ∈ c.slots, Living s ∧ ¬ Hits c endOutput s e ∧
      (s.conn.outBuf.length ≠ 0 ∨ Brings conns s e)) ∨
    Living tunnel ∧ ¬ Hits c endOutput tunnel e ∧ 5 ≤ tunnel.conn.outBuf.capacity ∧
      (cmdqLength c.pump.cmdQueue ≠ 0 ∨ Opens c e ∨
        ∃ i ∈ List.range 255, ∃ s ∈ lookup c.slots conns (i + 1),
          isAlive s.conn.state = true ∧ isAlive s.conn.inState = true ∧
            s.conn.inBuf.length ≠ 0 ∧ ¬ Hits c endInput s e)

/-- A frame that is handled with another one behind it leaves something to write. -/
def FrameWakes (conns : Conns) (c : Controller) : Prop :=
  ∀ tunnel ∈ lookup c.slots conns 0, ∀ r ∈ frameAt tunnel.conn.inBuf.contents,
    Fits conns c r.1 → Behind conns c r.1 r.2 → Wakes conns c tunnel r.1

section Decidable

variable (conns : Conns) (c : Controller)

instance (cmds : List UInt8) (s : Slot) : DecidablePred (Hits c cmds s)
  | .command _ _ => inferInstanceAs (Decidable (_ ∧ _))
  | .data _ _ => isFalse id

instance (s : Slot) : DecidablePred (Brings conns s)
  | .command _ _ => isFalse id
  | .data _ _ => inferInstanceAs (Decidable (_ ∧ _))

instance : DecidablePred (Opens c)
  | .command _ _ => inferInstanceAs (Decidable (_ ∧ _))
  | .data _ _ => isFalse id

instance (id : UInt8) (n : ℕ) : Decidable (RoomFor conns c id n) :=
  inferInstanceAs (Decidable (∀ _ ∈ _, _))

instance : DecidablePred (Fits conns c)
  | .command _ _ => isTrue trivial
  | .data _ _ => inferInstanceAs (Decidable (RoomFor ..))

instance (e : TunnelEvent) : DecidablePred (CanFollow conns c e)
  | .command _ _ => isTrue trivial
  | .data _ _ => inferInstanceAs (Decidable (RoomFor ..))

instance (e : TunnelEvent) : DecidablePred (Behind conns c e) :=
  fun _ => inferInstanceAs (Decidable (_ ∧ _))

instance (tunnel : Slot) : DecidablePred (Wakes conns c tunnel) :=
  fun _ => inferInstanceAs (Decidable (_ ∨ _))

instance : Decidable (FrameWakes conns c) := inferInstanceAs (Decidable (∀ _ ∈ _, _))

end Decidable

/-- What a connection is after the frame `e` has been taken. -/
structure FrameStep (conns : Conns) (c : Controller) (e : TunnelEvent) (s s' : Slot) : Prop where
  ref : s'.ref = s.ref
  id : s'.conn.id = s.conn.id
  inBuf : s.conn.id ≠ 0 → s'.conn.inBuf = s.conn.inBuf
  outBuf : s.conn.outBuf.length ≤ s'.conn.outBuf.length
  capacity : s'.conn.outBuf.capacity = s.conn.outBuf.capacity
  bytes : ∀ id bytes, e = .data id bytes → conns id.toNat = some s.ref →
    s'.conn.outBuf.length = s.conn.outBuf.length + bytes.length
  states : (s'.conn.state = s.conn.state ∧ s'.conn.inState = s.conn.inState ∧
      s'.conn.outState = s.conn.outState) ∨
    ∃ cmd arg, e = .command cmd arg ∧ commandTarget c ⟨cmd, arg, 0⟩ = some s ∧
      s'.conn.state = (commandChange cmd s.conn).state ∧
      s'.conn.inState = (commandChange cmd s.conn).inState ∧
      s'.conn.outState = (commandChange cmd s.conn).outState

/-- What an endpoint is after the frame `e` has been taken, with `rest` behind it. -/
structure FrameEffect (conns : Conns) (c c₁ : Controller) (tunnel : Slot) (e : TunnelEvent)
    (rest : List UInt8) : Prop where
  sendingTo : c₁.pump.sendingTo = -1
  slots : ∃ g new, c₁.slots = c.slots.map g ++ new ∧ (∀ s ∈ c.slots, FrameStep conns c e s (g s)) ∧
    (∀ s ∈ new, ∀ t ∈ c.slots, t.conn.id ≠ s.conn.id) ∧ (g tunnel).conn.inBuf.contents = rest
  queue : c.pump.cmdQueue.length ≤ c₁.pump.cmdQueue.length
  answer : Opens c e → c₁.pump.cmdQueue.length ≠ 0

theorem FrameStep.living {e : TunnelEvent} {s s' : Slot} (h : FrameStep conns c e s s')
    (hliving : Living s) (hhits : ¬ Hits c endOutput s e) : Living s' := by
  rcases h.states with ⟨hstate, -, hout⟩ | ⟨cmd, arg, rfl, htarget, hstate, -, hout⟩
  · unfold Living
    rw [hstate, hout]
    exact hliving
  · have hcmd : cmd ∉ endOutput := fun hmem => hhits ⟨hmem, by rw [htarget]; rfl⟩
    unfold endOutput at hcmd
    simp only [List.mem_cons, List.not_mem_nil, or_false, not_or] at hcmd
    unfold Living
    rw [hstate, hout, delete_commandChange hcmd.1]
    refine ⟨hliving.1, ?_⟩
    unfold commandChange
    rw [if_neg hcmd.1, if_neg hcmd.2]
    split_ifs <;> exact hliving.2

theorem FrameStep.alive {e : TunnelEvent} {s s' : Slot} (h : FrameStep conns c e s s')
    (hstate : isAlive s.conn.state = true) (hin : isAlive s.conn.inState = true)
    (hhits : ¬ Hits c endInput s e) :
    isAlive s'.conn.state = true ∧ isAlive s'.conn.inState = true := by
  rcases h.states with ⟨hs, hi, -⟩ | ⟨cmd, arg, rfl, htarget, hs, hi, -⟩
  · rw [hs, hi]
    exact ⟨hstate, hin⟩
  · have hcmd : cmd ∉ endInput := fun hmem => hhits ⟨hmem, by rw [htarget]; rfl⟩
    unfold endInput at hcmd
    simp only [List.mem_cons, List.not_mem_nil, or_false, not_or] at hcmd
    rw [hs, hi]
    unfold commandChange
    rw [if_neg hcmd.1]
    split_ifs with h₁ h₂ h₃
    · exact ⟨hstate, hin⟩
    · exact absurd h₂ hcmd.2
    · exact ⟨hstate, hin⟩
    · exact ⟨hstate, hin⟩

/-- Commands of the peer never shorten the queue, and `CMD_NEW` for an unused id is answered. -/
theorem length_queue_onCommand (env : ConnectEnv) (c : Controller) (command : Command) :
    c.pump.cmdQueue.length ≤ (onCommand env c command).pump.cmdQueue.length ∧
      (command.cmd = cmdNew → commandTarget c command = none →
        (onCommand env c command).pump.cmdQueue.length ≠ 0) := by
  have hsend {c' : Controller} {answer : Command} (hsame : c'.pump = c.pump) :
      c.pump.cmdQueue.length ≤ (sendOrWarn c' answer).pump.cmdQueue.length ∧
        (sendOrWarn c' answer).pump.cmdQueue.length ≠ 0 := by
    have hcap := Nat.zero_lt_of_lt c.pump.cmdQueue.offset_lt
    rw [← hsame] at hcap ⊢
    unfold sendOrWarn sendCommand
    cases hq : cmdqEnqueue c'.pump.cmdQueue answer with
    | none =>
      rw [cmdqEnqueue_eq_none_iff] at hq
      exact ⟨Nat.le_refl _, by rw [Option.map_none, Option.getD_none]; omega⟩
    | some q =>
      have hlen : ((Option.map c'.setQueue (some q)).getD c').pump.cmdQueue.length =
        c'.pump.cmdQueue.length + 1 := length_cmdqEnqueue hq
      omega
  cases htarget : commandTarget c command with
  | some s =>
    rw [onCommand_of_some htarget]
    exact ⟨Nat.le_refl _, fun _ hnone => absurd hnone (Option.some_ne_none s)⟩
  | none =>
    by_cases hcmd : command.cmd = cmdNew
    · rw [onCommand_new htarget hcmd]
      refine ⟨(hsend ?_).1, fun _ _ => (hsend ?_).2⟩ <;> rfl
    · rw [onCommand_of_none htarget hcmd]
      exact ⟨Nat.le_refl _, fun hnew => absurd hnew hcmd⟩

/-- The object that a command is about after the input of an object has changed. -/
theorem commandTarget_modify_inBuf (ref : ℕ) (buf : RoundBuffer) (event : PumpEvent)
    (command : Command) :
    commandTarget ((c.modify ref fun conn => { conn with inBuf := buf }).note event) command =
      (commandTarget c command).map (modifySlot ref fun conn => { conn with inBuf := buf }) := by
  unfold commandTarget
  change (c.slots.map (modifySlot ref fun conn => { conn with inBuf := buf })).find? _ = _
  rw [List.find?_map]
  congr 2
  funext s
  unfold modifySlot
  dsimp only [Function.comp]
  split_ifs <;> rfl

/-- A slot whose input has changed, if it is the tunnel's. -/
theorem frameStep_inBuf {e : TunnelEvent} {s s' : Slot} {ref : ℕ} {f : RoundBuffer → RoundBuffer}
    (h : FrameStep conns c e s s') (hne : s.conn.id ≠ 0 → s.ref ≠ ref) :
    FrameStep conns c e s
      (modifySlot ref (fun conn => { conn with inBuf := f conn.inBuf }) s') := by
  by_cases href : s'.ref = ref
  · rw [modifySlot_of_eq href]
    exact ⟨h.ref, h.id, fun hid => absurd (h.ref ▸ href) (hne hid), h.outBuf, h.capacity, h.bytes,
      h.states⟩
  · rwa [modifySlot_of_ne href]

theorem frameStep_refl {cmd arg : UInt8} (s : Slot) : FrameStep conns c (.command cmd arg) s s :=
  ⟨rfl, rfl, fun _ => rfl, Nat.le_refl _, rfl, fun _ _ he => (nomatch he),
    .inl ⟨rfl, rfl, rfl⟩⟩

/-- The connection that a command is about. -/
theorem FrameStep.commandChange {cmd arg : UInt8} {s s' : Slot}
    (h : FrameStep conns c (.command cmd arg) s s')
    (hsame : s'.conn.state = s.conn.state ∧ s'.conn.inState = s.conn.inState ∧
      s'.conn.outState = s.conn.outState)
    (htarget : commandTarget c ⟨cmd, arg, 0⟩ = some s) :
    FrameStep conns c (.command cmd arg) s
      { s' with conn := PortForwarding.commandChange cmd s'.conn } := by
  refine ⟨h.ref, (id_commandChange ..).trans h.id, fun hid =>
    (inBuf_commandChange ..).trans (h.inBuf hid),
    ?_, ?_, fun _ _ he => (nomatch he), .inr ⟨cmd, arg, rfl, htarget, ?_⟩⟩
  · rw [outBuf_commandChange]
    exact h.outBuf
  · rw [outBuf_commandChange]
    exact h.capacity
  · dsimp only
    unfold PortForwarding.commandChange
    split_ifs <;> simp only [hsame.1, hsame.2.1, hsame.2.2, and_self]

/-- **A command frame.** -/
theorem handleFrame_effect (env : ConnectEnv) (hwf : WellFormed c) (hconns : ConnsOk conns c.slots)
    (htunnel : lookup c.slots conns 0 = some tunnel) (hsend : c.pump.sendingTo = -1)
    (cmd arg : UInt8) {rest : List UInt8} (hrest : tunnel.conn.inBuf.contents.drop 5 = rest) :
    FrameEffect conns c (c.handleFrame (onCommand env) tunnel cmd arg) tunnel (.command cmd arg)
      rest := by
  have hid := hconns.entriesAt.tunnel_id hwf.nodup htunnel
  have hmem := (lookup_eq_some htunnel).1
  let buf := bufAdvanceReadPtr tunnel.conn.inBuf 3
  let taken := modifySlot tunnel.ref fun conn => { conn with inBuf := buf }
  let c' := (c.modify tunnel.ref fun conn => { conn with inBuf := buf }).note (.received cmd arg)
  let advance := modifySlot tunnel.ref fun conn =>
    { conn with inBuf := bufAdvanceReadPtr conn.inBuf 2 }
  have hne {s : Slot} (hs : s ∈ c.slots) : s.conn.id ≠ 0 → s.ref ≠ tunnel.ref := fun hzero href =>
    hzero (by rw [eq_of_ref_eq hwf.nodup hs hmem href, hid])
  have htaken {s : Slot} (hs : s ∈ c.slots) : FrameStep conns c (.command cmd arg) s (taken s) :=
    frameStep_inBuf (f := fun _ => buf) (frameStep_refl s) (hne hs)
  have hqueue := length_queue_onCommand env c' ⟨cmd, arg, 0⟩
  have htarget : commandTarget c' ⟨cmd, arg, 0⟩ = (commandTarget c ⟨cmd, arg, 0⟩).map taken :=
    commandTarget_modify_inBuf ..
  obtain ⟨opened, heff⟩ := onCommand_effect env c' ⟨cmd, arg, 0⟩
  -- what is left is to say what the handler does between the two changes of the tunnel
  suffices hslots : ∃ m new, (onCommand env c' ⟨cmd, arg, 0⟩).slots = c'.slots.map m ++ new ∧
      (∀ s ∈ c.slots, FrameStep conns c (.command cmd arg) s (m (taken s))) ∧
      (∀ s ∈ new, ∀ t ∈ c.slots, t.conn.id ≠ s.conn.id) ∧
      (m (taken tunnel)).conn.inBuf = (taken tunnel).conn.inBuf by
    obtain ⟨m, new, hslots, hm, hnew, hbuf⟩ := hslots
    refine ⟨heff.sendingTo.trans hsend, ⟨advance ∘ m ∘ taken, new.map advance, ?_, fun s hs => ?_,
      fun s hs t ht => ?_, ?_⟩, hqueue.1, ?_⟩
    · change (onCommand env c' ⟨cmd, arg, 0⟩).slots.map advance = _
      rw [hslots, List.map_append, List.map_map]
      change (c.slots.map taken).map (advance ∘ m) ++ _ = _
      rw [List.map_map]
      rfl
    · exact frameStep_inBuf (f := fun buf => bufAdvanceReadPtr buf 2) (hm s hs) (hne hs)
    · obtain ⟨u, hu, rfl⟩ := List.mem_map.mp hs
      have hkeep : (advance u).conn.id = u.conn.id := by
        unfold advance modifySlot
        split_ifs <;> rfl
      rw [hkeep]
      exact hnew u hu t ht
    · have hfirst : (taken tunnel).conn.inBuf = buf := by
        unfold taken
        rw [modifySlot_self]
      have hlast : (advance (m (taken tunnel))).conn.inBuf = bufAdvanceReadPtr buf 2 := by
        have href : (m (taken tunnel)).ref = tunnel.ref := (hm tunnel hmem).ref
        unfold advance
        rw [modifySlot_of_eq href]
        dsimp only
        rw [hbuf, hfirst]
      change (advance (m (taken tunnel))).conn.inBuf.contents = rest
      rw [hlast, contents_bufAdvanceReadPtr, contents_bufAdvanceReadPtr, List.drop_drop, ← hrest]
    · rintro ⟨hnew, hnone⟩
      exact hqueue.2 hnew (by rw [htarget, Option.isNone_iff_eq_none.mp hnone]; rfl)
  rcases heff.slots with ⟨s', htarget', -, hslots, -⟩ |
    ⟨hnone, -, ⟨-, hslots, -⟩ | ⟨-, -, s, hslots, hfresh, -⟩⟩
  · obtain ⟨s, hs, rfl⟩ := Option.map_eq_some_iff.mp (htarget.symm.trans htarget')
    have hsref : (taken s).ref = s.ref := ref_modifySlot _ _ s
    rw [hsref] at hslots
    refine ⟨modifySlot s.ref (commandChange cmd), [], by rw [hslots, List.append_nil],
      fun t ht => ?_, fun t ht => absurd ht List.not_mem_nil, ?_⟩
    · by_cases href : t.ref = s.ref
      · obtain rfl := eq_of_ref_eq hwf.nodup ht (commandTarget_eq_some hs).1 href
        rw [modifySlot_of_eq hsref]
        refine (htaken ht).commandChange ?_ hs
        unfold taken modifySlot
        split_ifs <;> exact ⟨rfl, rfl, rfl⟩
      · have hne : (taken t).ref ≠ s.ref := by
          rw [show (taken t).ref = t.ref from ref_modifySlot _ _ t]
          exact href
        rw [modifySlot_of_ne hne]
        exact htaken ht
    · unfold modifySlot
      split_ifs
      · exact inBuf_commandChange ..
      · rfl
  · exact ⟨fun t => t, [], by rw [hslots, List.map_id', List.append_nil], fun t ht => htaken ht,
      fun t ht => absurd ht List.not_mem_nil, rfl⟩
  · refine ⟨fun t => t, [s], by rw [hslots, List.map_id'], fun t ht => htaken ht,
      fun u hu t ht => ?_, rfl⟩
    obtain rfl := List.mem_singleton.mp hu
    rw [hfresh.id]
    have hfind : commandTarget c ⟨cmd, arg, 0⟩ = none := by
      rw [htarget] at hnone
      exact Option.map_eq_none_iff.mp hnone
    simpa using List.find?_eq_none.mp hfind t ht

/-- **A data frame that fits.** -/
theorem deliver_effect (env : PumpEnv) (hwf : WellFormed c) (hconns : ConnsOk conns c.slots)
    (htunnel : lookup c.slots conns 0 = some tunnel) {id : UInt8}
    {bytes rest : List UInt8} {target : Slot}
    (htarget : lookup c.slots conns id.toNat = some target)
    (hroom : bytes.length < bufFreeLength target.conn.outBuf)
    (hframe : unstuff endByte escByte tunnel.afterStart.conn.inBuf.contents = some (bytes, rest)) :
    FrameEffect conns c (c.deliver env id.toNat tunnel.afterStart target) tunnel (.data id bytes)
      rest := by
  have hid := hconns.entriesAt.tunnel_id hwf.nodup htunnel
  have hmem := (lookup_eq_some htunnel).1
  let r := decode env.wild tunnel.afterStart.conn.inBuf target.conn.outBuf
  obtain ⟨hsrc, hdst⟩ := contents_decode_of_unstuff env.wild hframe hroom
  have hend : r.1 = true := congrArg Prod.fst (decode_of_unstuff env.wild hframe hroom)
  let g : Slot → Slot := modifySlot target.ref (fun conn => { conn with outBuf := r.2.2 }) ∘
    modifySlot tunnel.ref fun conn => { conn with inBuf := r.2.1 }
  have hin (s : Slot) : (g s).conn.inBuf = if s.ref = tunnel.ref then r.2.1 else s.conn.inBuf := by
    unfold g modifySlot
    dsimp only [Function.comp]
    split_ifs <;> rfl
  refine ⟨if_pos hend, ⟨g, [], ?_, fun s hs => ?_, fun s hs => absurd hs List.not_mem_nil, ?_⟩,
    Nat.le_refl _, fun hopens => hopens.elim⟩
  · change (c.slots.map _).map _ = _
    rw [List.map_map, List.append_nil]
    rfl
  · have hcases : (g s).ref = s.ref ∧ (g s).conn.id = s.conn.id ∧ (g s).conn.state = s.conn.state ∧
        (g s).conn.inState = s.conn.inState ∧ (g s).conn.outState = s.conn.outState := by
      unfold g modifySlot
      dsimp only [Function.comp]
      split_ifs <;> exact ⟨rfl, rfl, rfl, rfl, rfl⟩
    have hout : (g s).conn.outBuf = if s.ref = target.ref then r.2.2 else s.conn.outBuf := by
      unfold g modifySlot
      dsimp only [Function.comp]
      split_ifs <;> rfl
    refine ⟨hcases.1, hcases.2.1, fun hne => ?_, ?_, ?_, fun i bs he hconns' => ?_,
      .inl ⟨hcases.2.2.1, hcases.2.2.2.1, hcases.2.2.2.2⟩⟩
    · have href : s.ref ≠ tunnel.ref := fun href =>
        hne (by rw [eq_of_ref_eq hwf.nodup hs hmem href, hid])
      rw [hin, if_neg href]
    · rw [hout]
      split_ifs with href
      · rw [eq_of_ref_eq hwf.nodup hs (lookup_eq_some htarget).1 href]
        exact length_decode ..
      · exact Nat.le_refl _
    · rw [hout]
      split_ifs with href
      · rw [eq_of_ref_eq hwf.nodup hs (lookup_eq_some htarget).1 href]
        rfl
      · rfl
    · obtain ⟨rfl, rfl⟩ := TunnelEvent.data.inj he
      have href : s.ref = target.ref :=
        Option.some.inj (hconns'.symm.trans (lookup_eq_some htarget).2)
      rw [hout, if_pos href, eq_of_ref_eq hwf.nodup hs (lookup_eq_some htarget).1 href]
      exact hdst
  · rw [hin, if_pos rfl]
    exact hsrc

/-! ### The next frame -/

/-- A data frame is about a connection, not about the tunnel. -/
theorem id_ne_zero_of_frameAt {bs rest bytes : List UInt8} {id : UInt8}
    (h : frameAt bs = some (.data id bytes, rest)) : id ≠ 0 := by
  match bs with
  | [] | [_] => exact absurd h.symm (Option.some_ne_none _)
  | b :: i :: bs =>
    rw [frameAt] at h
    split_ifs at h with hend hcmd
    · unfold commandAt at h
      split at h
      · cases h
      · cases h
    · obtain ⟨r, -, hr⟩ := Option.map_eq_some_iff.mp h
      obtain ⟨rfl, -⟩ := TunnelEvent.data.inj (Prod.mk.inj hr).1
      exact hcmd

/-- The first connection with an id is the only one if it is also the last one. -/
theorem eq_of_first_of_last {slots : List Slot} (hnd : (slots.map Slot.ref).Nodup) {i : ℕ}
    {s : Slot}
    (hfirst : (slots.find? fun s => s.conn.id == (i : ℤ)) = some s)
    (hlast : lastWithId i slots = some s) {t : Slot} (ht : t ∈ slots) (hid : t.conn.id = i) :
    t = s := by
  obtain ⟨hs, l₁, l₂, rfl, hbefore⟩ := List.find?_eq_some_iff_append.mp hfirst
  rw [List.mem_append, List.mem_cons] at ht
  rcases ht with ht | rfl | ht
  · have := hbefore t ht
    simp [hid] at this
  · rfl
  · obtain ⟨u, hu⟩ := Option.ne_none_iff_exists'.mp
      (fun hnone => lastWithId_eq_none_iff.mp hnone t ht hid)
    rw [lastWithId_append, lastWithId_cons, hu] at hlast
    obtain rfl : u = s := Option.some.inj hlast
    rw [List.map_append, List.map_cons, List.nodup_append, List.nodup_cons] at hnd
    exact absurd (List.mem_map_of_mem (mem_of_lastWithId hu).1) hnd.2.1.1

variable {e : TunnelEvent} {rest : List UInt8}

/-- The connection that an entry of the array pointed to when the frame was taken is still the last
one with its id, if one is left. -/
theorem eq_of_last_remaining (hwf : WellFormed c) (hconns : ConnsOk conns c.slots)
    {g g' : Slot → Slot} {new : List Slot} (hslots : c₂.slots = (c.slots.map g ++ new).map g')
    (hg : ∀ s ∈ c.slots, FrameStep conns c e s (g s))
    (hnew : ∀ s ∈ new, ∀ t ∈ c.slots, t.conn.id ≠ s.conn.id)
    (hg' : ∀ s ∈ c.slots.map g ++ new, SentStep s (g' s)) {i : ℕ} {s u : Slot}
    (hs : lookup c.slots conns i = some s) (hu : lastWithId i (remaining c₂.slots) = some u) :
    u = g' (g s) := by
  obtain ⟨hlast, hdel⟩ := (hconns.lookup_iff hwf.nodup).mp hs
  obtain ⟨hmem, hid⟩ := mem_of_lastWithId hlast
  have hold {t : Slot} (ht : t ∈ c.slots) : g t ∈ c.slots.map g ++ new :=
    List.mem_append_left _ (List.mem_map_of_mem ht)
  have hlast₁ : lastWithId i (c.slots.map g ++ new) = some (g s) := by
    have hnone : lastWithId i new = none := by
      rw [lastWithId_eq_none_iff]
      exact fun t ht ht' => hnew t ht s hmem (hid.trans ht'.symm)
    rw [lastWithId_append, hnone, lastWithId_map i fun t ht => (hg t ht).id, hlast]
    rfl
  have hlast₂ : lastWithId i c₂.slots = some (g' (g s)) := by
    rw [hslots, lastWithId_map i fun t ht => (hg' t ht).id, hlast₁]
    rfl
  cases hdeleted : (g' (g s)).conn.state.delete with
  | false =>
    have hkept : lastWithId i (remaining c₂.slots) = some (g' (g s)) :=
      lastWithId_filter hlast₂ (by rw [hdeleted]; rfl)
    exact Option.some.inj (hu.symm.trans hkept)
  | true =>
    -- the command has closed this connection, and it was the only one with its id
    exfalso
    obtain ⟨hmemu, hidu⟩ := mem_of_lastWithId hu
    obtain ⟨hmemu, hkept⟩ := List.mem_filter.mp hmemu
    rw [(hg' _ (hold hmem)).state] at hdeleted
    rcases (hg s hmem).states with ⟨hstate, -⟩ | ⟨cmd, arg, rfl, htarget, -⟩
    · rw [hstate, hdel] at hdeleted
      exact Bool.false_ne_true hdeleted
    · have hunique {t : Slot} (ht : t ∈ c.slots) (hidt : t.conn.id = i) : t = s := by
        obtain ⟨-, hidarg⟩ := commandTarget_eq_some htarget
        have harg : (arg.toNat : ℤ) = i := hidarg.symm.trans hid
        refine eq_of_first_of_last hwf.nodup ?_ hlast ht hidt
        rw [← harg]
        exact htarget
      rw [hslots] at hmemu
      obtain ⟨v, hv, rfl⟩ := List.mem_map.mp hmemu
      rw [(hg' v hv).id] at hidu
      rcases List.mem_append.mp hv with hv' | hv'
      · obtain ⟨t, ht, rfl⟩ := List.mem_map.mp hv'
        rw [(hg t ht).id] at hidu
        rw [hunique ht hidu, (hg' _ (hold hmem)).state, hdeleted] at hkept
        exact Bool.false_ne_true hkept
      · exact hnew v hv' s hmem (hid.trans hidu.symm)

/-- A frame that can be handled after a frame was behind it. -/
theorem FrameEffect.behind (h : FrameEffect conns c c₁ tunnel e rest) (hwf : WellFormed c)
    (hconns : ConnsOk conns c.slots) (htunnel : lookup c.slots conns 0 = some tunnel)
    (hsent : SlotsSent c₁.slots c₂.slots) (hsend : c₂.pump.sendingTo = c₁.pump.sendingTo)
    (hproc : Processable c₂.pump (remaining c₂.slots)) : Behind conns c e rest := by
  obtain ⟨g, new, hslots, hg, hnew, hrest⟩ := h.slots
  obtain ⟨g', hslots', hg'⟩ := hsent
  rw [hslots] at hslots' hg'
  have hold {t : Slot} (ht : t ∈ c.slots) : SentStep (g t) (g' (g t)) :=
    hg' _ (List.mem_append_left _ (List.mem_map_of_mem ht))
  obtain ⟨t, ht, hproc⟩ := hproc
  have hmem := (lookup_eq_some htunnel).1
  obtain rfl := eq_of_last_remaining hwf hconns hslots' hg hnew hg' htunnel ht
  have hid : (g tunnel).conn.id = 0 :=
    (hg tunnel hmem).id.trans (hconns.entriesAt.tunnel_id hwf.nodup htunnel)
  rw [if_pos (hsend.trans h.sendingTo), (hold hmem).tunnelIn hid] at hproc
  obtain ⟨hlen, ⟨e', rest'⟩, hr, hroom⟩ := hproc
  rw [← RoundBuffer.length_contents, hrest] at hlen
  rw [hrest] at hr
  refine ⟨hlen, (e', rest'), hr, ?_⟩
  cases e' with
  | command => trivial
  | data id bytes =>
    intro target htarget
    obtain ⟨target', htarget', hlt⟩ := hroom
    obtain rfl := eq_of_last_remaining hwf hconns hslots' hg hnew hg' htarget htarget'
    have hmem' := (lookup_eq_some htarget).1
    have hstep := hg target hmem'
    have hne : (g target).conn.id ≠ 0 := by
      rw [hstep.id, hconns.entriesAt.id hwf.nodup htarget]
      intro hzero
      exact id_ne_zero_of_frameAt hr (UInt8.toNat_inj.mp (Int.ofNat.inj hzero))
    rw [(hold hmem').output hne, hstep.capacity] at hlt
    cases e with
    | command => exact lt_of_le_of_lt hstep.outBuf hlt
    | data id' bytes' =>
      rw [payload_cons_data, payload_nil, List.append_nil]
      by_cases hsame : id' = id
      · subst hsame
        have := hstep.bytes id' bytes' rfl (lookup_eq_some htarget).2
        rw [if_pos rfl]
        omega
      · rw [if_neg hsame]
        exact lt_of_le_of_lt hstep.outBuf hlt

/-- A frame that leaves something to write leaves a living output with bytes. -/
theorem FrameEffect.pending (h : FrameEffect conns c c₁ tunnel e rest) (hwf : WellFormed c)
    (hconns : ConnsOk conns c.slots) (htunnel : lookup c.slots conns 0 = some tunnel)
    (hwf₁ : WellFormed c₁) (hentries : EntriesAt conns c₁.slots) (hwakes : Wakes conns c tunnel e) :
    Pending (sendToTunnel conns c₁).slots := by
  obtain ⟨g, new, hslots, hg, -, -⟩ := h.slots
  have hsent := (sendToTunnel_sent hwf₁.nodup hentries).1
  have hmem {s : Slot} (hs : s ∈ c.slots) : g s ∈ c₁.slots := by
    rw [hslots]
    exact List.mem_append_left _ (List.mem_map_of_mem hs)
  have hlookup {i : ℕ} {s : Slot} (hs : lookup c.slots conns i = some s) :
      lookup c₁.slots conns i = some (g s) := by
    obtain ⟨hs, hi⟩ := lookup_eq_some hs
    exact lookup_of_mem hwf₁.nodup (hmem hs) (by rw [hi, (hg s hs).ref])
  rcases hwakes with ⟨s, hs, hliving, hhits, hbytes⟩ | ⟨hliving, hhits, hcap, hunsent⟩
  · have hne : (g s).conn.outBuf.length ≠ 0 := by
      have hle := (hg s hs).outBuf
      rcases hbytes with hne | hbrings
      · omega
      · cases e with
        | command => exact hbrings.elim
        | data id bytes =>
          have := (hg s hs).bytes id bytes rfl hbrings.2
          have := List.length_pos_of_ne_nil hbrings.1
          omega
    obtain ⟨g', hslots', hg'⟩ := hsent
    have hstep := hg' (g s) (hmem hs)
    refine ⟨g' (g s), hslots' ▸ List.mem_map_of_mem (hmem hs), ?_, ?_⟩
    · unfold Living
      rw [hstep.state, hstep.outState]
      exact (hg s hs).living hliving hhits
    · have := hstep.outBuf
      omega
  · have htunnelMem := (lookup_eq_some htunnel).1
    have hstep := hg tunnel htunnelMem
    have hpending : TunnelPending conns (sendToTunnel conns c₁).slots := by
      refine sendToTunnel_pending hwf₁.nodup hentries (hlookup htunnel) (hstep.capacity ▸ hcap) ?_
      rcases hunsent with hqueue | hopens | ⟨i, hi, s, hs, hstate, hin, hunread, hhits⟩
      · have := h.queue
        unfold cmdqLength at hqueue ⊢
        exact .inl (by omega)
      · exact .inl (h.answer hopens)
      · have hsmem := (lookup_eq_some hs).1
        have halive := (hg s hsmem).alive hstate hin hhits
        have hid : s.conn.id ≠ 0 := by
          rw [hconns.entriesAt.id hwf.nodup hs]
          omega
        exact .inr ⟨i, List.mem_range.mp hi, g s, hlookup hs, halive.1, halive.2,
          (hg s hsmem).inBuf hid ▸ hunread⟩
    obtain ⟨t, ht, hne⟩ := hpending
    obtain ⟨t', ht', hstep'⟩ := hsent.lookup hwf₁.nodup (hlookup htunnel)
    obtain rfl := Option.some.inj (ht.symm.trans ht')
    refine ⟨t, (lookup_eq_some ht).1, ?_, hne⟩
    unfold Living
    rw [hstep'.state, hstep'.outState]
    exact hstep.living hliving hhits

/-! ### Updates that are cut short -/

/-- What `handle_state_changes` leaves of a connection. It removes one only if it has nothing to
write. -/
structure Leaves (s s' : Slot) : Prop where
  id : s'.conn.id = s.conn.id
  inBuf : s'.conn.inBuf = s.conn.inBuf
  outBuf : s'.conn.outBuf = s.conn.outBuf
  deleted : s.conn.state.delete = true → s'.conn.state.delete = true
  removed : s'.conn.state.delete = true →
    s.conn.state.delete = true ∨ 1 ≤ s.conn.id ∧ s.conn.outBuf.length = 0
  living : Living s → s.conn.outBuf.length ≠ 0 → Living s'

theorem leaves_of_announces {s : Slot} {cmd : UInt8} {conn : Connection} (hid : 1 ≤ s.conn.id)
    (h : Announces s.conn cmd conn) : Leaves s { s with conn := conn } := by
  cases h with
  | new => exact ⟨rfl, rfl, rfl, id, .inl, fun h _ => h⟩
  | close _ hclose =>
    rw [shouldCloseConnection, Bool.and_eq_true, Bool.and_eq_true] at hclose
    have hempty := (bufEmpty_iff _).mp hclose.1.2
    exact ⟨rfl, rfl, rfl, fun _ => rfl, fun _ => .inr ⟨hid, hempty⟩, fun _ hne => absurd hempty hne⟩
  | closeIn => exact ⟨rfl, rfl, rfl, id, .inl, fun h _ => h⟩
  | closeOut _ _ hclose =>
    rw [shouldCloseOut, Bool.and_eq_true] at hclose
    exact ⟨rfl, rfl, rfl, id, .inl, fun _ hne => absurd ((bufEmpty_iff _).mp hclose.1) hne⟩

/-- The last connection with an id afterwards is what is left of the last one before, or that one
has been removed. -/
theorem lastWithId_leaves {slots : List Slot} {f : Slot → Slot}
    (hf : ∀ s ∈ slots, Leaves s (f s)) {i : ℕ} {t' : Slot}
    (ht' : lastWithId i (remaining (slots.map f)) = some t') :
    ∃ t ∈ slots, lastWithId i (remaining slots) = some t ∧
      (t' = f t ∨ 1 ≤ t.conn.id ∧ t.conn.outBuf.length = 0) := by
  induction slots generalizing t' with
  | nil => cases ht'
  | cons s slots ih =>
    obtain ⟨hs, hrest⟩ := List.forall_mem_cons.mp hf
    have hcons (s : Slot) (slots : List Slot) : lastWithId i (remaining (s :: slots)) =
        (lastWithId i (remaining slots)).or
          (if s.conn.state.delete = false ∧ s.conn.id = i then some s else none) := by
      unfold remaining
      rw [List.filter_cons]
      cases hdel : s.conn.state.delete with
      | true => simp
      | false => simp [lastWithId_cons]
    rw [List.map_cons, hcons] at ht'
    rw [hcons]
    cases hlast : lastWithId i (remaining (slots.map f)) with
    | some u =>
      rw [hlast, Option.some_or, Option.some_inj] at ht'
      obtain ⟨t, ht, heq, hleft⟩ := ih hrest hlast
      obtain rfl := ht'
      exact ⟨t, List.mem_cons_of_mem s ht, by rw [heq, Option.some_or], hleft⟩
    | none =>
      rw [hlast, Option.none_or] at ht'
      split_ifs at ht' with hkept
      obtain rfl := Option.some.inj ht'
      have hdel : s.conn.state.delete = false :=
        Bool.eq_false_iff.mpr fun h => Bool.false_ne_true (hkept.1.symm.trans (hs.deleted h))
      cases hbefore : lastWithId i (remaining slots) with
      | none =>
        refine ⟨s, List.mem_cons_self, ?_, .inl rfl⟩
        rw [Option.none_or, if_pos ⟨hdel, hs.id.symm.trans hkept.2⟩]
      | some t =>
        -- the last one has been removed
        obtain ⟨ht, hid⟩ := mem_of_lastWithId hbefore
        obtain ⟨ht, htdel⟩ := List.mem_filter.mp ht
        have hleft := hrest t ht
        have hremoved : (f t).conn.state.delete = true := by
          by_contra hdel'
          refine lastWithId_eq_none_iff.mp hlast (f t) ?_ (hleft.id.trans hid)
          rw [Bool.not_eq_true] at hdel'
          exact List.mem_filter.mpr ⟨List.mem_map_of_mem ht, by rw [hdel']; rfl⟩
        refine ⟨t, List.mem_cons_of_mem s ht, by rw [Option.some_or], .inr ?_⟩
        refine (hleft.removed hremoved).resolve_left fun h => ?_
        rw [h] at htdel
        exact Bool.false_ne_true htdel

/-- What can be handled afterwards could be handled before. -/
theorem processable_of_leaves {slots : List Slot} {f : Slot → Slot} (pump : Pump)
    (hf : ∀ s ∈ slots, Leaves s (f s)) (h : Processable pump (remaining (slots.map f))) :
    Processable pump (remaining slots) := by
  have hroom {i : ℕ} {target : Slot}
      (htarget : lastWithId i (remaining (slots.map f)) = some target)
      (hlt : target.conn.outBuf.length < target.conn.outBuf.capacity) :
      ∃ t ∈ lastWithId i (remaining slots),
        t.conn.outBuf.length < t.conn.outBuf.capacity := by
    obtain ⟨t, ht, hlast, rfl | ⟨-, hempty⟩⟩ := lastWithId_leaves hf htarget
    · exact ⟨t, hlast, (hf t ht).outBuf ▸ hlt⟩
    · exact ⟨t, hlast, hempty ▸ t.conn.outBuf.capacity_pos⟩
  obtain ⟨tunnel, htunnel, h⟩ := h
  obtain ⟨t, ht, hlast, hleft⟩ := lastWithId_leaves hf htunnel
  have hid := (mem_of_lastWithId hlast).2
  obtain rfl : tunnel = f t := hleft.resolve_right fun hremoved => by omega
  refine ⟨t, hlast, ?_⟩
  rw [(hf t ht).inBuf] at h
  split_ifs at h ⊢
  · obtain ⟨hlen, ⟨e, rest⟩, hr, hfits⟩ := h
    refine ⟨hlen, (e, rest), hr, ?_⟩
    cases e with
    | command => trivial
    | data id bytes =>
      obtain ⟨target, htarget, hlt⟩ := hfits
      exact hroom htarget hlt
  · obtain ⟨hend, target, htarget, hlt⟩ := h
    exact ⟨hend, hroom htarget hlt⟩

/-- One announcement lets no frame become one that can be handled, and ends no output that has
something to write. -/
theorem processable_of_announceStep {c' : Controller} (hwf : WellFormed c)
    (h : AnnounceStep c c') :
    (Processable c'.pump (remaining c'.slots) → Processable c.pump (remaining c.slots)) ∧
      (Pending c.slots → Pending c'.slots) := by
  cases h with
  | @announce s cmd conn q hs hid hdel hann hq =>
    have hf : ∀ t ∈ c.slots, Leaves t (modifySlot s.ref (fun _ => conn) t) := by
      intro t ht
      by_cases href : t.ref = s.ref
      · obtain rfl := eq_of_ref_eq hwf.nodup ht hs href
        rw [modifySlot_self]
        exact leaves_of_announces hid hann
      · rw [modifySlot_of_ne href]
        exact ⟨rfl, rfl, rfl, id, .inl, fun h _ => h⟩
    refine ⟨fun hproc => processable_of_leaves c.pump hf hproc,
      fun ⟨t, ht, hliving, hne⟩ => ?_⟩
    exact ⟨_, List.mem_map_of_mem ht, (hf t ht).living hliving hne, (hf t ht).outBuf.symm ▸ hne⟩

/-- Neither do announcements. -/
theorem processable_of_announceRun {c' : Controller} (hwf : WellFormed c)
    (h : AnnounceRun c c') :
    (Processable c'.pump (remaining c'.slots) → Processable c.pump (remaining c.slots)) ∧
      (Pending c.slots → Pending c'.slots) := by
  induction h with
  | refl => exact ⟨id, id⟩
  | tail hrun hlast ih =>
    obtain ⟨hproc, hpending⟩ := processable_of_announceStep (AnnounceRun.wellFormed hrun hwf) hlast
    exact ⟨ih.1 ∘ hproc, hpending ∘ ih.2⟩

/-! ### Runs -/

/-- What is asked of an update that `handle_state_changes` cuts short: after `cm_poll` no frame
waits that could be handled, or a living output has bytes to write. -/
def PollGuarded (env : PollEnv) (c : Controller) : Prop :=
  ∀ p ∈ (cmPoll env c.manager).toOption,
    ¬ Processable c.pump (remaining (Controller.sort { c with manager := p.1 }).slots) ∨
      Pending (Controller.sort { c with manager := p.1 }).slots

/-- What is asked of an update of `c` when it comes to `pump_transfer`, or returns before. A frame
that is handled with another one behind it leaves something to write. -/
def EntryGuarded (env : Env) (c c₁ : Controller) : CloseCause ⊕ Conns → Prop
  | .inr conns => ∀ c₂ ∈ beginFrame env.pump conns c₁, FrameWakes conns c₂
  | .inl _ => PollGuarded env.poll c

/-- An update that loses no wake-up. -/
def Guarded (env : Env) (c : Controller) : Prop :=
  ∀ r ∈ (beforeTransfer env.poll c).toOption, EntryGuarded env c r.1 r.2

instance (env : PollEnv) (c : Controller) : Decidable (PollGuarded env c) :=
  inferInstanceAs (Decidable (∀ _ ∈ _, _))

instance (env : Env) (c c₁ : Controller) : DecidablePred (EntryGuarded env c c₁)
  | .inr _ => inferInstanceAs (Decidable (∀ _ ∈ _, _))
  | .inl _ => inferInstanceAs (Decidable (PollGuarded env.poll c))

instance (env : Env) : DecidablePred (Guarded env) :=
  fun _ => inferInstanceAs (Decidable (∀ _ ∈ _, _))

/-- The states of an endpoint after any number of such updates. -/
inductive GuardedReach (bufSize : ℕ+) (accepting : Bool) : Controller → Prop
  | start (env : StartEnv) : GuardedReach bufSize accepting (startController env bufSize accepting)
  | update {c c' : Controller} (env : Env) (h : GuardedReach bufSize accepting c)
      (hguard : Guarded env c) (hc : update env c = .ok (c', .none)) :
      GuardedReach bufSize accepting c'

variable {bufSize : ℕ+} {accepting : Bool}

theorem GuardedReach.reach (h : GuardedReach bufSize accepting c) : Reach bufSize accepting c := by
  induction h with
  | start env => exact .start env
  | update env _ _ hc ih => exact .update env ih hc

/-- **The pump loses no wake-up** when the frame that it handles leaves something to write. -/
theorem pending_of_pumpTransfer {env : PumpEnv} (hwf : WellFormed c)
    (hconns : ConnsOk conns c.slots)
    (hguard : ∀ c₁ ∈ beginFrame env conns c, FrameWakes conns c₁)
    (hc : pumpTransfer (onCommand env.connect) env conns c = .ok c₂)
    (hproc : Processable c₂.pump (remaining c₂.slots)) : Pending c₂.slots := by
  obtain ⟨c₁, hrecv, rfl⟩ := exists_of_pumpTransfer hc
  obtain ⟨hrun, hentries⟩ := recvFromTunnel_run hwf hconns hrecv
  have hwf₁ := hrun.wellFormed hwf
  obtain ⟨hsent, hsend⟩ := sendToTunnel_sent hwf₁.nodup hentries
  rcases recvFromTunnel_spec hwf hconns hrecv with ⟨hstuck, hconns₁⟩ |
    ⟨c₀, tunnel, e, rest, hbegin, hwf₀, hconns₀, htunnel, hidle, hframe, htakes⟩
  · exact absurd hproc (hstuck.not_processable hwf₁ hconns₁ hsent hsend)
  · have heffect : FrameEffect conns c₀ c₁ tunnel e rest ∧ Fits conns c₀ e := by
      cases htakes with
      | command cmd arg _ hrest =>
        exact ⟨handleFrame_effect env.connect hwf₀ hconns₀ htunnel hidle cmd arg hrest, trivial⟩
      | data env' _ htarget hroom hunstuff =>
        refine ⟨deliver_effect env' hwf₀ hconns₀ htunnel htarget hroom hunstuff, fun t ht => ?_⟩
        obtain rfl := Option.some.inj (htarget.symm.trans ht)
        unfold bufFreeLength at hroom
        omega
    have hbehind := heffect.1.behind hwf₀ hconns₀ htunnel hsent hsend hproc
    exact heffect.1.pending hwf₀ hconns₀ htunnel hwf₁ hentries
      (hguard c₀ hbegin tunnel htunnel (e, rest) hframe heffect.2 hbehind)

/-- **No wake-up is lost** in a run in which every frame that is handled with another one behind it
leaves something to write. -/
theorem woken_of_guarded (h : GuardedReach bufSize accepting c) : Woken c := by
  intro hproc
  have hproc' := processable_of_beforePoll hproc
  cases h with
  | start env =>
    obtain ⟨t, ht, hproc'⟩ := hproc'
    obtain rfl := List.mem_singleton.mp (List.mem_filter.mp (mem_of_lastWithId ht).1).1
    have hidle : (startController env bufSize accepting).pump.sendingTo = -1 := rfl
    rw [if_pos hidle] at hproc'
    exact absurd hproc'.1 (Nat.not_lt_zero 3)
  | update env h hguard hc =>
    rename_i c₀
    have hwf₀ : WellFormed c₀ := (Visit.reach h.reach).wellFormed
    have hwf := (Visit.reach (h.reach.update env hc)).wellFormed
    refine Pending.armed ?_ hwf
    rcases update_cases hc with hbefore | ⟨c₁, conns, hbefore, hpump, -⟩
    · obtain ⟨m, hpoll, hrun⟩ := beforeTransfer_polled hwf₀ hbefore (.inl rfl)
      have hstop : PollGuarded env.poll c₀ := hguard (_, .inl _) (by rw [hbefore]; rfl)
      obtain ⟨hback, hpending⟩ := processable_of_announceRun (hwf₀.poll hpoll).sort hrun
      exact hpending ((hstop (m, .none) (by rw [hpoll]; rfl)).resolve_left
        (not_not_intro (hback hproc')))
    · obtain ⟨hrun, hconns⟩ := beforeTransfer_run hwf₀ hbefore
      exact pending_of_pumpTransfer (hrun.wellFormed hwf₀) (hconns conns rfl)
        (hguard (c₁, .inr conns) (by rw [hbefore]; rfl)) hpump hproc'

/-- Updates in the given environments that lose no wake-up. -/
def guardedUpdates : List Env → Controller → Option Controller
  | [], c => some c
  | env :: envs, c =>
    if Guarded env c then
      match update env c with
      | .ok (c', .none) => guardedUpdates envs c'
      | _ => none
    else none

theorem reach_guardedUpdates {envs : List Env} {c' : Controller}
    (h : GuardedReach bufSize accepting c)
    (hc : guardedUpdates envs c = some c') : GuardedReach bufSize accepting c' := by
  induction envs generalizing c with
  | nil =>
    obtain rfl := Option.some.inj hc
    exact h
  | cons env envs ih =>
    unfold guardedUpdates at hc
    split_ifs at hc with hguard
    split at hc
    · rename_i c₁ hupdate
      exact ih (.update env h hguard hupdate) hc
    · exact absurd hc.symm (Option.some_ne_none c')

/-- The connecting endpoint gets the command to open connection `1` together with the first data for
it. -/
def earlyData : Option Controller :=
  guardedUpdates [⟨tunnelReads [0x7E, 0, 1, 1, 0x7E, 0x7E, 1, 10, 20, 0x7E], samplePump⟩]
    (startController sampleStart sampleBufSize false)

/-- The answer to the command ends the wait, and the data is handled then. -/
theorem woken_of_guarded_earlyData : ∃ c ∈ earlyData,
    Processable c.pump (beforePoll c.manager).slots ∧
      ∃ s ∈ (beforePoll c.manager).slots, Armed s := by
  have hrun : earlyData.map (fun c => decide (Processable c.pump (beforePoll c.manager).slots)) =
      some true := by decide +kernel
  obtain ⟨c, hc, hproc⟩ := Option.map_eq_some_iff.mp hrun
  rw [decide_eq_true_eq] at hproc
  exact ⟨c, hc, hproc, woken_of_guarded (reach_guardedUpdates (.start sampleStart) hc) hproc⟩

/-- Two clients come, their `CMD_NEW` are written, and the answers to both come with one read. -/
def twoAcks : Option Controller :=
  updates [⟨clientComes 20, samplePump⟩, ⟨clientComes 21, samplePump⟩,
      ⟨{ quietPoll with
          ready := some fun ref => { pollout := ref == 0 }
          sockets := { quietPoll.sockets with write := fun _ => .taken 10 } }, samplePump⟩,
      ⟨tunnelReads [0x7E, 0, 5, 1, 0x7E, 0x7E, 0, 5, 2, 0x7E], samplePump⟩]
    (startController sampleStart sampleBufSize true)

/-- The second answer waits in the tunnel, and `poll` waits for no output. -/
theorem not_woken_twoAcks : ∃ c, Reach 10240 true c ∧ ¬ Woken c := by
  have hrun : twoAcks.map (fun c => decide (Woken c)) = some false := by decide +kernel
  obtain ⟨c, hc, hrun⟩ := Option.map_eq_some_iff.mp hrun
  rw [decide_eq_false_iff_not] at hrun
  exact ⟨c, reach_updates (.start sampleStart) hc, hrun⟩

end OsTasks.PortForwarding
