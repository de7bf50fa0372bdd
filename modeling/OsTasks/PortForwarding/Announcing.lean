import OsTasks.PortForwarding.Waiting

/-!
# What there is to announce

`handle_state_changes` goes through the connections in the order of their ids, and through the
changes of each of them in a fixed order; it stops where a command finds the queue full. This file
lists the commands that are due, for one connection and for all, and shows that the loop queues as
many of them, from the front of the list, as there is room for.

## Main definitions

* `announcements`, `announced`: the commands due for a connection, and what queueing one changes.
* `Announcement`, `pending`: the commands due for the connections with the given ids.
* `Ledger.perform`: the slots and the free ids after one command.

## Main results

* `announcements_announced`: a command that is queued is not due any more, and the others are.
* `stateTurn_announces`, `stateLoop_announces`: what a turn and the loop queue.
-/

namespace OsTasks.PortForwarding

/-! ### One connection -/

/-- The commands due for a connection, in the order of the loop. For a connection that is about to
be removed there is none. -/
def announcements (c : Connection) : List UInt8 :=
  if shouldDelete c.state then []
  else
    (if isNewConnection c then [cmdNew] else []) ++
      if shouldCloseConnection c then [cmdClose]
      else
        (if !c.inState.delete && shouldCloseIn c then [cmdCloseSrcToDst] else []) ++
          if !c.outState.delete && shouldCloseOut c then [cmdCloseDstToSrc] else []

/-- The connection after a command has been queued for it. -/
def announced (c : Connection) (cmd : UInt8) : Connection :=
  if cmd = cmdNew then { c with state := { c.state with new := false, stopped := true } }
  else if cmd = cmdClose then { c with state := { c.state with delete := true } }
  else if cmd = cmdCloseSrcToDst then { c with inState := { c.inState with delete := true } }
  else { c with outState := { c.outState with delete := true } }

@[simp] theorem announced_cmdNew (c : Connection) :
    announced c cmdNew = { c with state := { c.state with new := false, stopped := true } } := rfl

@[simp] theorem announced_cmdClose (c : Connection) :
    announced c cmdClose = { c with state := { c.state with delete := true } } := rfl

@[simp] theorem id_announced (c : Connection) (cmd : UInt8) : (announced c cmd).id = c.id := by
  unfold announced
  split_ifs <;> rfl

@[simp] theorem id_foldl_announced (c : Connection) (cmds : List UInt8) :
    (cmds.foldl announced c).id = c.id := by
  induction cmds generalizing c with
  | nil => rfl
  | cons cmd cmds ih => exact (ih _).trans (id_announced c cmd)

/-- A connection that is about to be removed stays so. -/
theorem shouldDelete_announced {c : Connection} (h : shouldDelete c.state = true) (cmd : UInt8) :
    shouldDelete (announced c cmd).state = true := by
  rw [shouldDelete_iff] at h
  unfold announced
  split_ifs <;> simp [shouldDelete_iff, h]

theorem announcements_of_open {c : Connection} (hdel : shouldDelete c.state = false)
    (hnew : isNewConnection c = false) (hclose : shouldCloseConnection c = false) :
    announcements c =
      (if !c.inState.delete && shouldCloseIn c then [cmdCloseSrcToDst] else []) ++
        if !c.outState.delete && shouldCloseOut c then [cmdCloseDstToSrc] else [] := by
  rw [announcements, hdel, hnew, hclose]
  rfl

/-- **A command that is queued is not due any more**, and the others are still due. -/
theorem announcements_announced {c : Connection} {cmd : UInt8} {cmds : List UInt8}
    (h : announcements c = cmd :: cmds) : announcements (announced c cmd) = cmds := by
  have hdel : shouldDelete c.state = false := by
    by_contra hdel
    rw [announcements, if_pos (Bool.eq_true_of_not_eq_false hdel)] at h
    exact List.cons_ne_nil _ _ h.symm
  rw [announcements, hdel, if_neg Bool.false_ne_true] at h
  by_cases hnew : isNewConnection c = true
  · -- the first command is `CMD_NEW`, which the others do not depend on
    rw [if_pos hnew] at h
    obtain ⟨rfl, rfl⟩ := List.cons.inj h
    rw [announcements, announced_cmdNew]
    simp only [show shouldDelete { c.state with new := false, stopped := true } = false from hdel]
    rfl
  rw [if_neg hnew, List.nil_append] at h
  by_cases hclose : shouldCloseConnection c = true
  · rw [if_pos hclose] at h
    obtain ⟨rfl, rfl⟩ := List.cons.inj h
    have hclosed : c.state.closed = true := by
      rw [shouldCloseConnection, Bool.and_eq_true] at hclose
      exact hclose.2
    rw [announcements, announced_cmdClose, if_pos (by simp [shouldDelete, hclosed])]
  rw [if_neg hclose] at h
  by_cases hin : (!c.inState.delete && shouldCloseIn c) = true
  · rw [if_pos hin] at h
    obtain ⟨rfl, rfl⟩ := List.cons.inj h
    rw [announcements_of_open (c := announced c cmdCloseSrcToDst) hdel (Bool.eq_false_iff.mpr hnew)
      (Bool.eq_false_iff.mpr hclose)]
    rfl
  · rw [if_neg hin, List.nil_append] at h
    split_ifs at h with hout
    obtain ⟨rfl, rfl⟩ := List.cons.inj h
    rw [announcements_of_open (c := announced c cmdCloseDstToSrc) hdel (Bool.eq_false_iff.mpr hnew)
      (Bool.eq_false_iff.mpr hclose)]
    exact congrArg (· ++ []) (if_neg hin)

/-! ### A turn -/

/-- How many commands still fit. -/
def CmdQueue.room (q : CmdQueue) : ℕ := q.cap - q.length

/-- The command that is queued for the connection of a slot. -/
def Slot.command (s : Slot) (cmd : UInt8) : Command := ⟨cmd, toByte s.conn.id, s.inc⟩

@[simp] theorem command_announced (s : Slot) (cmds : List UInt8) :
    Slot.command { s with conn := cmds.foldl announced s.conn } = s.command := by
  funext cmd
  rw [Slot.command, id_foldl_announced]
  rfl

/-- A turn has gone on from `t` to `t'` by queueing the given commands, as many of them as there was
room for. -/
structure Queues (cmds : List UInt8) (t t' : Turn) : Prop where
  again : t'.again = decide (t.queue.room < cmds.length)
  slot : t'.slot = { t.slot with conn := (cmds.take t.queue.room).foldl announced t.slot.conn }
  contents : t'.queue.contents =
    t.queue.contents ++ (cmds.take t.queue.room).map t.slot.command
  cap : t'.queue.cap = t.queue.cap
  events : ∃ more, t'.events = more ++ t.events ∧ ∀ e ∈ more, ∃ s cmd, e = .queued s cmd

variable {t t' t'' : Turn} {cmds cmds' : List UInt8}

theorem Queues.nil (h : t.again = false) : Queues [] t t where
  again := by simp [h]
  slot := by rw [List.take_nil]; rfl
  contents := by simp
  cap := rfl
  events := ⟨[], rfl, fun _ he => absurd he List.not_mem_nil⟩

theorem Queues.room (h : Queues cmds t t') (hagain : t'.again = false) :
    cmds.length ≤ t.queue.room ∧ t'.queue.room = t.queue.room - cmds.length := by
  have hle : cmds.length ≤ t.queue.room := by
    rw [h.again, decide_eq_false_iff_not] at hagain
    omega
  have hlen := congrArg List.length h.contents
  rw [List.take_of_length_le hle, List.length_append, List.length_map, t'.queue.length_contents,
    t.queue.length_contents] at hlen
  refine ⟨hle, ?_⟩
  rw [CmdQueue.room, CmdQueue.room, h.cap, hlen]
  omega

/-- A turn that has not been cut off goes on. -/
theorem Queues.append (h : Queues cmds t t') (hagain : t'.again = false)
    (h' : Queues cmds' t' t'') :
    Queues (cmds ++ cmds') t t'' := by
  obtain ⟨hle, hroom⟩ := h.room hagain
  have htake : (cmds ++ cmds').take t.queue.room = cmds ++ cmds'.take t'.queue.room := by
    rw [hroom, List.take_append, List.take_of_length_le hle]
  have hslot := h.slot
  rw [List.take_of_length_le hle] at hslot
  constructor
  · rw [h'.again, hroom, List.length_append]
    exact decide_eq_decide.mpr (by omega)
  · rw [h'.slot, hslot, htake, List.foldl_append]
  · rw [h'.contents, h.contents, hslot, command_announced, htake, List.map_append,
      List.take_of_length_le hle, List.append_assoc]
  · exact h'.cap.trans h.cap
  · obtain ⟨more, hevents, hmore⟩ := h.events
    obtain ⟨more', hevents', hmore'⟩ := h'.events
    refine ⟨more' ++ more, by rw [hevents', hevents, List.append_assoc], fun e he => ?_⟩
    exact (List.mem_append.mp he).elim (hmore' e) (hmore e)

/-- A turn that has been cut off does nothing more. -/
theorem Queues.cut (h : Queues cmds t t') (hagain : t'.again = true) (cmds' : List UInt8) :
    Queues (cmds ++ cmds') t t' := by
  have hlt : t.queue.room < cmds.length := by
    rw [h.again, decide_eq_true_eq] at hagain
    exact hagain
  have htake : (cmds ++ cmds').take t.queue.room = cmds.take t.queue.room :=
    List.take_append_of_le_length hlt.le
  refine ⟨?_, htake.symm ▸ h.slot, htake.symm ▸ h.contents, h.cap, h.events⟩
  rw [hagain, eq_comm, decide_eq_true_eq, List.length_append]
  omega

theorem Queues.send (hagain : t.again = false) (cmd : UInt8) :
    Queues [cmd] t (t.send cmd fun c => announced c cmd) := by
  unfold Turn.send
  cases hq : cmdqEnqueue t.queue ⟨cmd, toByte t.slot.conn.id, t.slot.inc⟩ with
  | none =>
    have hroom : t.queue.room = 0 := by
      rw [CmdQueue.room, (cmdqEnqueue_eq_none_iff _ _).mp hq, Nat.sub_self]
    refine ⟨?_, ?_, ?_, rfl, [], rfl, fun _ he => absurd he List.not_mem_nil⟩ <;> simp [hroom]
  | some q =>
    have hroom : 1 ≤ t.queue.room := by
      have := length_cmdqEnqueue hq
      have := cap_cmdqEnqueue hq
      have := q.length_le
      rw [CmdQueue.room]
      omega
    have htake : [cmd].take t.queue.room = [cmd] := List.take_of_length_le hroom
    refine ⟨?_, ?_, ?_, cap_cmdqEnqueue hq, [.queued t.slot cmd], rfl, fun e he => ?_⟩
    · rw [hagain, eq_comm, decide_eq_false_iff_not, Nat.not_lt]
      exact hroom
    · rw [htake]
      rfl
    · rw [htake]
      exact contents_cmdqEnqueue hq
    · exact ⟨_, _, List.mem_singleton.mp he⟩

/-- A command that is queued under a condition. -/
theorem Queues.ite (hagain : t.again = false) (cmd : UInt8) (b : Bool) :
    Queues (if b then [cmd] else []) t (if b then t.send cmd fun c => announced c cmd else t) := by
  cases b
  · exact .nil hagain
  · exact .send hagain cmd

/-- The second half of a turn, where the connection is not new. -/
def announceRest (t : Turn) : Turn :=
  if shouldCloseConnection t.slot.conn then announceClose t
  else
    let t := announceCloseIn t
    if t.again then t else announceCloseOut t

theorem outState_announceCloseIn (t : Turn) :
    (announceCloseIn t).slot.conn.outState = t.slot.conn.outState := by
  unfold announceCloseIn Turn.send
  split_ifs <;> try split
  all_goals rfl

theorem outBuf_announceCloseIn (t : Turn) :
    (announceCloseIn t).slot.conn.outBuf = t.slot.conn.outBuf := by
  unfold announceCloseIn Turn.send
  split_ifs <;> try split
  all_goals rfl

theorem announceRest_queues (hagain : t.again = false)
    (hdel : shouldDelete t.slot.conn.state = false) (hnew : isNewConnection t.slot.conn = false) :
    Queues (announcements t.slot.conn) t (announceRest t) := by
  by_cases hclose : shouldCloseConnection t.slot.conn = true
  · have hann : announcements t.slot.conn = [cmdClose] := by
      rw [announcements, hdel, hnew, hclose]
      rfl
    rw [hann, announceRest, if_pos hclose]
    have hsend := Queues.send hagain cmdClose
    exact ⟨hsend.again, hsend.slot, hsend.contents, hsend.cap, hsend.events⟩
  · rw [announcements_of_open hdel hnew (Bool.eq_false_iff.mpr hclose), announceRest, if_neg hclose]
    have hin : Queues _ t (announceCloseIn t) := Queues.ite hagain cmdCloseSrcToDst _
    dsimp only
    by_cases hcut : (announceCloseIn t).again = true
    · rw [if_pos hcut]
      exact hin.cut hcut _
    · rw [if_neg hcut]
      have hout : Queues _ (announceCloseIn t) (announceCloseOut (announceCloseIn t)) :=
        Queues.ite (Bool.eq_false_iff.mpr hcut) cmdCloseDstToSrc _
      rw [shouldCloseOut, outState_announceCloseIn, outBuf_announceCloseIn] at hout
      exact hin.append (Bool.eq_false_iff.mpr hcut) hout

/-- **A turn queues the commands that are due**, as many of them as there is room for. -/
theorem stateTurn_queues {s : Slot} (hdel : shouldDelete s.conn.state = false) (queue : CmdQueue) :
    Queues (announcements s.conn) { slot := s, queue := queue } (stateTurn s queue) := by
  have hnew : Queues _ _ (announceNew { slot := s, queue := queue }) := Queues.ite rfl cmdNew _
  have hturn : stateTurn s queue =
      if (announceNew { slot := s, queue := queue }).again then
        announceNew { slot := s, queue := queue }
      else announceRest (announceNew { slot := s, queue := queue }) := rfl
  by_cases hc : isNewConnection s.conn = true
  · have hann : announcements s.conn = [cmdNew] ++ announcements (announced s.conn cmdNew) := by
      have hcons : announcements s.conn = cmdNew :: (announcements s.conn).tail := by
        rw [announcements, hdel, hc]
        rfl
      rw [announcements_announced hcons]
      exact hcons
    rw [hc] at hnew
    rw [hann, hturn]
    by_cases hcut : (announceNew { slot := s, queue := queue }).again = true
    · rw [if_pos hcut]
      exact hnew.cut hcut _
    · have hagain := Bool.eq_false_iff.mpr hcut
      have hconn :
          (announceNew { slot := s, queue := queue }).slot.conn = announced s.conn cmdNew := by
        rw [hnew.slot, List.take_of_length_le (hnew.room hagain).1]
        rfl
      have hrest := announceRest_queues hagain (hconn ▸ hdel) (by rw [hconn]; rfl)
      rw [hconn] at hrest
      rw [if_neg hcut]
      exact hnew.append hagain hrest
  · have hstart : announceNew { slot := s, queue := queue } = { slot := s, queue := queue } :=
      if_neg hc
    rw [hturn, hstart]
    have hopen : isNewConnection s.conn = false := Bool.eq_false_iff.mpr hc
    exact announceRest_queues (t := { slot := s, queue := queue }) rfl hdel hopen

theorem closed_send_ite (t : Turn) (b : Bool) (cmd : UInt8) (change : Connection → Connection) :
    (if b then t.send cmd change else t).closed = t.closed := by
  cases b
  · rfl
  · rw [if_pos rfl, Turn.send]
    split <;> rfl

/-- A connection is closed by a turn that is not cut off, if it has to be closed. -/
theorem closed_stateTurn (s : Slot) (queue : CmdQueue) :
    (stateTurn s queue).closed =
      (!(stateTurn s queue).again && shouldCloseConnection s.conn) := by
  have hnew : (announceNew { slot := s, queue := queue }).closed = false :=
    closed_send_ite { slot := s, queue := queue } _ cmdNew _
  have hclose : shouldCloseConnection (announceNew { slot := s, queue := queue }).slot.conn =
      shouldCloseConnection s.conn := by
    unfold announceNew Turn.send
    split_ifs <;> try split
    all_goals rfl
  rw [stateTurn]
  dsimp only
  rw [hclose]
  by_cases hcut : (announceNew { slot := s, queue := queue }).again = true
  · rw [if_pos hcut, hnew, hcut]
    rfl
  rw [if_neg hcut]
  by_cases hc : shouldCloseConnection s.conn = true
  · rw [if_pos hc, hc, Bool.and_true]
    rfl
  have hin : (announceCloseIn (announceNew { slot := s, queue := queue })).closed = false :=
    (closed_send_ite _ _ cmdCloseSrcToDst _).trans hnew
  rw [if_neg hc, Bool.eq_false_iff.mpr hc, Bool.and_false]
  by_cases hcut : (announceCloseIn (announceNew { slot := s, queue := queue })).again = true
  · rw [if_pos hcut, hin]
  · rw [if_neg hcut]
    exact (closed_send_ite _ _ cmdCloseDstToSrc _).trans hin

/-! ### All connections -/

/-- A command that is due for the connection at an address. -/
structure Announcement where
  ref : ℕ
  id : ℤ
  inc : ℕ
  cmd : UInt8

def Announcement.command (a : Announcement) : Command := ⟨a.cmd, toByte a.id, a.inc⟩

def Slot.announcement (s : Slot) (cmd : UInt8) : Announcement := ⟨s.ref, s.conn.id, s.inc, cmd⟩

/-- The commands due for the connections with the given ids. -/
def pending (ids : List ℕ) (slots : List Slot) : List Announcement :=
  ids.flatMap fun i =>
    (lastWithId i slots).elim [] fun s => (announcements s.conn).map s.announcement

theorem pending_cons (i : ℕ) (ids : List ℕ) (slots : List Slot) :
    pending (i :: ids) slots =
      ((lastWithId i slots).elim [] fun s => (announcements s.conn).map s.announcement) ++
        pending ids slots := List.flatMap_cons

/-- All commands that are due. -/
def Controller.due (c : Controller) : List Announcement := pending (List.range' 1 255) c.slots

/-- What the announcements change: the slots, and the stack of free ids. -/
structure Ledger where
  slots : List Slot
  freeIds : List ℤ

def Controller.ledger (c : Controller) : Ledger := ⟨c.slots, c.freeIds⟩

/-- The slots and the free ids after one command. An accepting endpoint frees the id of a connection
that is closed. -/
def Ledger.perform (accepting : Bool) (l : Ledger) (a : Announcement) : Ledger where
  slots := modifyConn l.slots a.ref fun c => announced c a.cmd
  freeIds := if a.cmd = cmdClose ∧ accepting then idStackPush l.freeIds a.id else l.freeIds

/-- What no announcement changes. -/
structure AnnounceKeeps (s s' : Slot) : Prop where
  ref : s'.ref = s.ref
  id : s'.conn.id = s.conn.id
  closed : s'.conn.state.closed = s.conn.state.closed
  inClosed : s'.conn.inState.closed = s.conn.inState.closed
  outClosed : s'.conn.outState.closed = s.conn.outState.closed
  inBuf : s'.conn.inBuf = s.conn.inBuf
  outBuf : s'.conn.outBuf = s.conn.outBuf

theorem announceKeeps_modifySlot (ref : ℕ) (cmd : UInt8) (s : Slot) :
    AnnounceKeeps s (modifySlot ref (fun c => announced c cmd) s) := by
  unfold modifySlot announced
  split_ifs <;> exact ⟨rfl, rfl, rfl, rfl, rfl, rfl, rfl⟩

theorem foldl_perform_keeps (accepting : Bool) (l : Ledger) (todo : List Announcement) :
    ∃ g, (todo.foldl (Ledger.perform accepting) l).slots = l.slots.map g ∧
      ∀ s, AnnounceKeeps s (g s) := by
  induction todo generalizing l with
  | nil => exact ⟨id, (List.map_id _).symm, fun s => ⟨rfl, rfl, rfl, rfl, rfl, rfl, rfl⟩⟩
  | cons a todo ih =>
    obtain ⟨g, hslots, hg⟩ := ih (l.perform accepting a)
    refine ⟨g ∘ modifySlot a.ref fun c => announced c a.cmd, ?_, fun s => ?_⟩
    · rw [List.foldl_cons, hslots, ← List.map_map]
      rfl
    · have h := announceKeeps_modifySlot a.ref a.cmd s
      have h' := hg (modifySlot a.ref (fun c => announced c a.cmd) s)
      exact ⟨h'.ref.trans h.ref, h'.id.trans h.id, h'.closed.trans h.closed,
        h'.inClosed.trans h.inClosed, h'.outClosed.trans h.outClosed, h'.inBuf.trans h.inBuf,
        h'.outBuf.trans h.outBuf⟩

/-- An endpoint that has gone on from `c` to `c'` by queueing these commands. -/
structure HasQueued (todo : List Announcement) (c c' : Controller) : Prop where
  ledger : c'.ledger = todo.foldl (Ledger.perform c.accepting) c.ledger
  contents : c'.pump.cmdQueue.contents =
    c.pump.cmdQueue.contents ++ todo.map Announcement.command
  cap : c'.pump.cmdQueue.cap = c.pump.cmdQueue.cap
  accepting : c'.accepting = c.accepting
  sendingTo : c'.pump.sendingTo = c.pump.sendingTo
  trace : ∃ events, c'.trace = events ++ c.trace ∧ ∀ e ∈ events, ∃ s cmd, e = .queued s cmd

variable {todo todo' : List Announcement} {c c' c'' : Controller}

theorem HasQueued.refl (c : Controller) : HasQueued [] c c :=
  ⟨rfl, (List.append_nil _).symm, rfl, rfl, rfl, [], rfl, fun _ he => absurd he List.not_mem_nil⟩

theorem HasQueued.trans (h : HasQueued todo c c') (h' : HasQueued todo' c' c'') :
    HasQueued (todo ++ todo') c c'' where
  ledger := by rw [h'.ledger, h.ledger, h.accepting, List.foldl_append]
  contents := by rw [h'.contents, h.contents, List.map_append, List.append_assoc]
  cap := h'.cap.trans h.cap
  accepting := h'.accepting.trans h.accepting
  sendingTo := h'.sendingTo.trans h.sendingTo
  trace := by
    obtain ⟨events, htrace, hevents⟩ := h.trace
    obtain ⟨events', htrace', hevents'⟩ := h'.trace
    refine ⟨events' ++ events, by rw [htrace', htrace, List.append_assoc], fun e he => ?_⟩
    exact (List.mem_append.mp he).elim (hevents' e) (hevents e)

theorem HasQueued.room (h : HasQueued todo c c') :
    c'.pump.cmdQueue.room = c.pump.cmdQueue.room - todo.length := by
  have hlen := congrArg List.length h.contents
  rw [List.length_append, List.length_map, CmdQueue.length_contents,
    CmdQueue.length_contents] at hlen
  rw [CmdQueue.room, CmdQueue.room, h.cap, hlen]
  omega

theorem modifyConn_id (slots : List Slot) (ref : ℕ) :
    modifyConn slots ref (fun c => c) = slots := by
  rw [modifyConn_eq_map]
  exact (List.map_congr_left fun s _ => ite_self s).trans (List.map_id _)

theorem modifyConn_congr {slots : List Slot} (hnd : (slots.map Slot.ref).Nodup) {s : Slot}
    (hs : s ∈ slots) {f g : Connection → Connection} (h : f s.conn = g s.conn) :
    modifyConn slots s.ref f = modifyConn slots s.ref g := by
  rw [modifyConn_eq_map, modifyConn_eq_map]
  refine List.map_congr_left fun t ht => ?_
  by_cases href : t.ref = s.ref
  · obtain rfl := eq_of_ref_eq hnd ht hs href
    rw [modifySlot_self, modifySlot_self, h]
  · rw [modifySlot_of_ne href, modifySlot_of_ne href]

/-- Commands for one connection change this connection only, and free its id when one of them is
`CMD_CLOSE`. -/
theorem foldl_perform_map (accepting : Bool) (l : Ledger) (s : Slot) {cmds : List UInt8}
    (hnd : cmds.Nodup) :
    (cmds.map s.announcement).foldl (Ledger.perform accepting) l =
      { slots := modifyConn l.slots s.ref fun c => cmds.foldl announced c
        freeIds :=
          if cmdClose ∈ cmds ∧ accepting then idStackPush l.freeIds s.conn.id else l.freeIds } := by
  induction cmds generalizing l with
  | nil =>
    rw [if_neg fun h => List.not_mem_nil h.1]
    exact congrArg (Ledger.mk · l.freeIds) (modifyConn_id l.slots s.ref).symm
  | cons cmd cmds ih =>
    obtain ⟨hcmd, hnd⟩ := List.nodup_cons.mp hnd
    rw [List.map_cons, List.foldl_cons, ih _ hnd]
    congr 1
    · exact modifyConn_modifyConn l.slots s.ref (fun c => announced c cmd) _
    · by_cases hclose : cmd = cmdClose
      · subst hclose
        rw [if_neg fun h => hcmd h.1]
        simp [Ledger.perform, Slot.announcement]
      · simp [Ledger.perform, Slot.announcement, hclose, Ne.symm hclose]

theorem nodup_announcements (c : Connection) : (announcements c).Nodup := by
  unfold announcements
  split_ifs <;> decide

/-- `CMD_CLOSE` comes last. -/
theorem cmdClose_mem_take_announcements {c : Connection} (hdel : shouldDelete c.state = false)
    (n : ℕ) : cmdClose ∈ (announcements c).take n ↔
      shouldCloseConnection c = true ∧ (announcements c).length ≤ n := by
  rw [announcements, hdel, if_neg Bool.false_ne_true]
  by_cases hclose : shouldCloseConnection c = true
  · rw [if_pos hclose]
    split_ifs
    · rcases n with _ | _ | n <;> simp [hclose, cmdNew, cmdClose]
    · rcases n with _ | n <;> simp [hclose]
  · rw [if_neg hclose]
    refine iff_of_false (fun hmem => ?_) fun h => hclose h.1
    have := List.mem_of_mem_take hmem
    split_ifs at this <;> revert this <;> decide

/-- **The turn of a connection** announces what is due for it. -/
theorem apply_stateTurn_hasQueued {s : Slot} (hnd : (c.slots.map Slot.ref).Nodup) (hs : s ∈ c.slots)
    (hdel : shouldDelete s.conn.state = false) :
    HasQueued (((announcements s.conn).map s.announcement).take c.pump.cmdQueue.room) c
      (c.apply s (stateTurn s c.pump.cmdQueue)) := by
  have hq := stateTurn_queues hdel c.pump.cmdQueue
  rw [← List.map_take]
  refine ⟨?_, ?_, hq.cap, rfl, rfl, ?_⟩
  · rw [foldl_perform_map _ _ _ ((nodup_announcements _).sublist (List.take_sublist _ _))]
    have hclosed : ((stateTurn s c.pump.cmdQueue).closed && c.accepting) = true ↔
        cmdClose ∈ (announcements s.conn).take c.pump.cmdQueue.room ∧ c.accepting = true := by
      rw [closed_stateTurn, hq.again, cmdClose_mem_take_announcements hdel]
      simp [and_comm]
    refine congrArg₂ Ledger.mk ?_ (if_congr hclosed rfl rfl)
    refine modifyConn_congr (f := fun _ => (stateTurn s c.pump.cmdQueue).slot.conn) hnd hs ?_
    rw [hq.slot]
  · rw [List.map_map]
    exact hq.contents
  · obtain ⟨more, hevents, hmore⟩ := hq.events
    rw [List.append_nil] at hevents
    exact ⟨more, by rw [Controller.apply, hevents], hmore⟩

/-! ### The loop -/

theorem lastWithId_modifyConn {slots : List Slot} (hnd : (slots.map Slot.ref).Nodup) {s : Slot}
    (hs : s ∈ slots) {f : Connection → Connection} (hf : (f s.conn).id = s.conn.id) (i : ℕ) :
    lastWithId i (modifyConn slots s.ref f) = (lastWithId i slots).map (modifySlot s.ref f) := by
  rw [modifyConn_eq_map, lastWithId_map]
  exact fun t ht => id_modifySlot hnd hs hf ht

theorem lastWithId_modifyConn_of_ne {slots : List Slot} (hnd : (slots.map Slot.ref).Nodup)
    {s : Slot}
    (hs : s ∈ slots) {f : Connection → Connection} (hf : (f s.conn).id = s.conn.id) {i : ℕ}
    (hi : s.conn.id ≠ i) : lastWithId i (modifyConn slots s.ref f) = lastWithId i slots := by
  rw [lastWithId_modifyConn hnd hs hf]
  cases hlast : lastWithId i slots with
  | none => rfl
  | some t =>
    obtain ⟨ht, hid⟩ := mem_of_lastWithId hlast
    have href : t.ref ≠ s.ref := fun href => hi (eq_of_ref_eq hnd ht hs href ▸ hid)
    exact congrArg some (modifySlot_of_ne href f)

/-- What is due for other ids does not change. -/
theorem pending_modifyConn {slots : List Slot} (hnd : (slots.map Slot.ref).Nodup) {s : Slot}
    (hs : s ∈ slots) {f : Connection → Connection} (hf : (f s.conn).id = s.conn.id) {ids : List ℕ}
    (hids : ∀ i ∈ ids, s.conn.id ≠ i) :
    pending ids (modifyConn slots s.ref f) = pending ids slots :=
  List.flatMap_congr fun i hi => by rw [lastWithId_modifyConn_of_ne hnd hs hf (hids i hi)]

theorem lookup_of_lastWithId {conns : Conns} {slots : List Slot} (hnd : (slots.map Slot.ref).Nodup)
    {i : ℕ} (h : conns i = (lastWithId i slots).map Slot.ref) :
    lookup slots conns i = lastWithId i slots := by
  cases hlast : lastWithId i slots with
  | none =>
    rw [hlast] at h
    rw [lookup, h]
    rfl
  | some s =>
    rw [hlast] at h
    exact lookup_of_mem hnd (mem_of_lastWithId hlast).1 h

/-- The loop has queued as much of the list as there was room for, and was cut off if there was
more. -/
structure LoopAnnounces (todo : List Announcement) (c : Controller)
    (r : StateResult × Controller × Conns) : Prop where
  result : r.1 = if c.pump.cmdQueue.room < todo.length then .again else .ok
  announced : HasQueued (todo.take c.pump.cmdQueue.room) c r.2.1

theorem LoopAnnounces.cut {r : StateResult × Controller × Conns}
    (h : HasQueued (todo.take c.pump.cmdQueue.room) c r.2.1) (hresult : r.1 = .again)
    (hlt : c.pump.cmdQueue.room < todo.length) (todo' : List Announcement) :
    LoopAnnounces (todo ++ todo') c r where
  result := by
    rw [hresult, List.length_append, if_pos (Nat.lt_add_right _ hlt)]
  announced := by
    rw [List.take_append_of_le_length hlt.le]
    exact h

theorem LoopAnnounces.append {r : StateResult × Controller × Conns}
    (h : HasQueued (todo.take c.pump.cmdQueue.room) c c')
    (hle : todo.length ≤ c.pump.cmdQueue.room) (hrest : LoopAnnounces todo' c' r) :
    LoopAnnounces (todo ++ todo') c r := by
  rw [List.take_of_length_le hle] at h
  have hroom := h.room
  constructor
  · rw [hrest.result, hroom, List.length_append]
    exact if_congr (by omega) rfl rfl
  · have happend := h.trans hrest.announced
    rw [List.take_append, List.take_of_length_le hle, ← hroom]
    exact happend

/-- The turn of one connection leaves those with other ids as they are. -/
theorem lastWithId_apply {s : Slot} (hnd : (c.slots.map Slot.ref).Nodup) (hs : s ∈ c.slots)
    (hdel : shouldDelete s.conn.state = false) {j : ℕ} (hj : s.conn.id ≠ j) :
    lastWithId j (c.apply s (stateTurn s c.pump.cmdQueue)).slots = lastWithId j c.slots := by
  refine lastWithId_modifyConn_of_ne hnd hs (f := fun _ => _) ?_ hj
  rw [(stateTurn_queues hdel c.pump.cmdQueue).slot]
  exact id_foldl_announced _ _

/-- The ids `ids` in the array `conns` are those of the connections of `c`, of which none is about
to be removed. -/
structure Entered (ids : List ℕ) (conns : Conns) (c : Controller) : Prop where
  refs : (c.slots.map Slot.ref).Nodup
  entry : ∀ i ∈ ids, conns i = (lastWithId i c.slots).map Slot.ref
  live : ∀ i ∈ ids, ∀ s, lastWithId i c.slots = some s → shouldDelete s.conn.state = false

variable {i : ℕ} {ids : List ℕ} {conns : Conns}

theorem Entered.tail (h : Entered (i :: ids) conns c) : Entered ids conns c :=
  ⟨h.refs, fun j hj => h.entry j (List.mem_cons_of_mem _ hj),
    fun j hj => h.live j (List.mem_cons_of_mem _ hj)⟩

/-- The rest of the array after a turn. -/
theorem Entered.turn {s : Slot} (h : Entered (i :: ids) conns c) (hi : i ∉ ids)
    (hlast : lastWithId i c.slots = some s) :
    Entered ids
        (if (stateTurn s c.pump.cmdQueue).closed then Function.update conns i none else conns)
        (c.apply s (stateTurn s c.pump.cmdQueue)) ∧
      ∀ j ∈ ids, lastWithId j (c.apply s (stateTurn s c.pump.cmdQueue)).slots =
        lastWithId j c.slots := by
  obtain ⟨hs, hid⟩ := mem_of_lastWithId hlast
  have hdel := h.live i List.mem_cons_self s hlast
  have hkeep : ∀ j ∈ ids, lastWithId j (c.apply s (stateTurn s c.pump.cmdQueue)).slots =
      lastWithId j c.slots := by
    intro j hj
    refine lastWithId_apply h.refs hs hdel fun he => ?_
    obtain rfl : i = j := Int.ofNat.inj (hid.symm.trans he)
    exact hi hj
  refine ⟨⟨?_, fun j hj => ?_, fun j hj => ?_⟩, hkeep⟩
  · exact (map_ref_modifyConn c.slots s.ref fun _ => _).symm ▸ h.refs
  · rw [hkeep j hj, ← h.entry j (List.mem_cons_of_mem _ hj)]
    have hji : j ≠ i := fun he => hi (he ▸ hj)
    split
    · exact Function.update_of_ne hji _ _
    · rfl
  · rw [hkeep j hj]
    exact h.live j (List.mem_cons_of_mem _ hj)

/-- **The loop queues what is due**, as much of it as there is room for, and is cut off where there
is more. -/
theorem stateLoop_announces (hids : ids.Nodup) (h : Entered ids conns c) :
    LoopAnnounces (pending ids c.slots) c (stateLoop ids conns c) := by
  induction ids generalizing conns c with
  | nil =>
    refine ⟨rfl, ?_⟩
    rw [pending, List.flatMap_nil, List.take_nil]
    exact .refl c
  | cons i ids ih =>
    obtain ⟨hi, hids⟩ := List.nodup_cons.mp hids
    rw [stateLoop, lookup_of_lastWithId h.refs (h.entry i List.mem_cons_self), pending_cons]
    cases hlast : lastWithId i c.slots with
    | none => exact ih hids h.tail
    | some s =>
      have hdel := h.live i List.mem_cons_self s hlast
      have hturn := apply_stateTurn_hasQueued h.refs (mem_of_lastWithId hlast).1 hdel
      have hq := stateTurn_queues hdel c.pump.cmdQueue
      dsimp only [Option.elim_some]
      by_cases hcut : (stateTurn s c.pump.cmdQueue).again = true
      · rw [if_pos hcut]
        refine .cut hturn rfl ?_ _
        rw [hq.again, decide_eq_true_eq] at hcut
        rwa [List.length_map]
      · rw [if_neg hcut]
        have hle := (hq.room (Bool.eq_false_iff.mpr hcut)).1
        obtain ⟨hentered, hkeep⟩ := h.turn hi hlast
        refine .append hturn (by rwa [List.length_map]) ?_
        have hpending : pending ids (c.apply s (stateTurn s c.pump.cmdQueue)).slots =
            pending ids c.slots := List.flatMap_congr fun j hj => by rw [hkeep j hj]
        rw [← hpending]
        exact ih hids hentered

/-- The array after a loop that has come to its end: the entries of the connections that had to be
closed are empty. -/
theorem stateLoop_conns (hids : ids.Nodup) (h : Entered ids conns c)
    (hok : (stateLoop ids conns c).1 = .ok) (j : ℕ) :
    (stateLoop ids conns c).2.2 j =
      if j ∈ ids then
        ((lastWithId j c.slots).filter fun s => !shouldCloseConnection s.conn).map Slot.ref
      else conns j := by
  induction ids generalizing conns c with
  | nil => rfl
  | cons i ids ih =>
    obtain ⟨hi, hids⟩ := List.nodup_cons.mp hids
    have hentry := h.entry i List.mem_cons_self
    rw [stateLoop, lookup_of_lastWithId h.refs hentry] at hok ⊢
    cases hlast : lastWithId i c.slots with
    | none =>
      rw [hlast] at hok hentry
      dsimp only at hok ⊢
      rw [ih hids h.tail hok]
      by_cases hji : j = i
      · subst hji
        rw [if_neg hi, if_pos List.mem_cons_self, hentry, hlast]
        rfl
      · simp only [List.mem_cons, hji, false_or]
    | some s =>
      rw [hlast] at hok hentry
      dsimp only at hok ⊢
      by_cases hcut : (stateTurn s c.pump.cmdQueue).again = true
      · rw [if_pos hcut] at hok
        exact absurd hok (by rintro ⟨⟩)
      rw [if_neg hcut] at hok ⊢
      obtain ⟨hentered, hkeep⟩ := h.turn hi hlast
      rw [ih hids hentered hok]
      by_cases hji : j = i
      · subst hji
        rw [if_neg hi, if_pos List.mem_cons_self, hlast, closed_stateTurn,
          Bool.eq_false_iff.mpr hcut, Bool.not_false, Bool.true_and, Option.filter_some]
        cases shouldCloseConnection s.conn
        · exact hentry
        · exact Function.update_self j none conns
      · by_cases hj : j ∈ ids
        · rw [if_pos hj, if_pos (List.mem_cons_of_mem _ hj), hkeep j hj]
        · rw [if_neg hj, if_neg fun hmem => (List.mem_cons.mp hmem).elim hji hj]
          split
          · exact Function.update_of_ne hji _ _
          · rfl

end OsTasks.PortForwarding
