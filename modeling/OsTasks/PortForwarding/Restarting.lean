import OsTasks.Library.Restart
import OsTasks.PortForwarding.Announcing

/-!
# Announcing the changes in several rounds

When the queue is full, `handle_state_changes` gives up and is called again by the next update,
after the queue has been drained and the connections that are deleted and closed have been removed.
The changes that are due form an agenda, so the rounds together queue the commands that one call
with an unlimited queue queues, and leave the same connections and the same free ids.

## Main definitions

* `changesAgenda`: the changes of the connections as an agenda.
* `changeRound`: sorting, announcing into a queue, and removing.
* `Announceable`: the connections as a round finds them.

## Main results

* `changeRound_restartable`: a round does as much as it has room for.
* `changeRounds_eq`: all rounds together do what one round without a limit does.
-/

namespace OsTasks.PortForwarding

variable {c : Controller}

/-! ### The changes as an agenda -/

theorem mem_pending {ids : List ℕ} {slots : List Slot} {a : Announcement}
    (h : a ∈ pending ids slots) :
    ∃ i ∈ ids, ∃ s, lastWithId i slots = some s ∧ ∃ cmd ∈ announcements s.conn,
      a = s.announcement cmd := by
  obtain ⟨i, hi, ha⟩ := List.mem_flatMap.mp h
  cases hlast : lastWithId i slots with
  | none =>
    rw [hlast] at ha
    exact absurd ha List.not_mem_nil
  | some s =>
    rw [hlast] at ha
    obtain ⟨cmd, hcmd, rfl⟩ := List.mem_map.mp ha
    exact ⟨i, hi, s, hlast, cmd, hcmd, rfl⟩

@[simp] theorem announcement_announced (s : Slot) (cmd : UInt8) :
    Slot.announcement { s with conn := announced s.conn cmd } = s.announcement := by
  funext cmd'
  rw [Slot.announcement, id_announced]
  rfl

/-- **Queueing the first command** that is due leaves the others. -/
theorem pending_perform {ids : List ℕ} (hids : ids.Nodup) {slots : List Slot}
    (hnd : (slots.map Slot.ref).Nodup) {a : Announcement} {as : List Announcement}
    (h : pending ids slots = a :: as) :
    pending ids (modifyConn slots a.ref fun c => announced c a.cmd) = as := by
  induction ids with
  | nil => exact absurd h.symm (List.cons_ne_nil _ _)
  | cons i ids ih =>
    obtain ⟨hi, hids⟩ := List.nodup_cons.mp hids
    rw [pending_cons] at h ⊢
    cases hfirst : (lastWithId i slots).elim [] fun s =>
      (announcements s.conn).map s.announcement with
    | nil =>
      -- the first command is for one of the other ids
      rw [hfirst, List.nil_append] at h
      have hmem : a ∈ pending ids slots := h ▸ List.mem_cons_self
      obtain ⟨j, hj, s, hlast, cmd, -, rfl⟩ := mem_pending hmem
      obtain ⟨hs, hid⟩ := mem_of_lastWithId hlast
      have hji : s.conn.id ≠ i := fun he => hi (Int.ofNat.inj (hid.symm.trans he) ▸ hj)
      rw [ih hids h]
      change ((lastWithId i (modifyConn slots s.ref _)).elim [] _) ++ as = as
      rw [lastWithId_modifyConn_of_ne hnd hs (id_announced _ _) hji, hfirst]
      rfl
    | cons b bs =>
      rw [hfirst, List.cons_append] at h
      obtain ⟨rfl, rfl⟩ := List.cons.inj h
      cases hlast : lastWithId i slots with
      | none =>
        rw [hlast] at hfirst
        exact absurd hfirst.symm (List.cons_ne_nil _ _)
      | some s =>
        rw [hlast] at hfirst
        obtain ⟨hs, hid⟩ := mem_of_lastWithId hlast
        obtain ⟨cmd, cmds, hann, rfl, rfl⟩ := List.map_eq_cons_iff.mp hfirst
        have hne : ∀ j ∈ ids, s.conn.id ≠ j := fun j hj he =>
          hi (Int.ofNat.inj (hid.symm.trans he) ▸ hj)
        change ((lastWithId i (modifyConn slots s.ref _)).elim [] _) ++
          pending ids (modifyConn slots s.ref _) = _
        rw [lastWithId_modifyConn hnd hs (id_announced _ _), hlast,
          pending_modifyConn hnd hs (id_announced _ _) hne]
        rw [Option.map_some, modifySlot_self, Option.elim_some, announcement_announced]
        exact congrArg (List.map s.announcement · ++ _) (announcements_announced hann)

/-- The changes of the connections, in the order in which they are announced. -/
def changesAgenda (accepting : Bool) : Agenda Ledger Announcement where
  todo l := pending (List.range' 1 255) l.slots
  perform := Ledger.perform accepting
  Valid l := (l.slots.map Slot.ref).Nodup
  valid_perform {l a _} h _ :=
    (map_ref_modifyConn l.slots a.ref fun c => announced c a.cmd).symm ▸ h
  todo_perform h htodo := pending_perform List.nodup_range' h htodo

/-! ### Removing connections -/

/-- The connections without those that are deleted and closed. -/
def live (slots : List Slot) : List Slot := slots.filter fun s => !shouldDelete s.conn.state

def Ledger.live (l : Ledger) : Ledger := { l with slots := PortForwarding.live l.slots }

theorem live_eq_self {slots : List Slot} (h : ∀ s ∈ slots, shouldDelete s.conn.state = false) :
    live slots = slots :=
  List.filter_eq_self.mpr fun s hs => by rw [h s hs]; rfl

/-- A connection that is removed stays so, and its removal leaves the others as they are. -/
theorem live_modifyConn_live (slots : List Slot) (ref : ℕ) (cmd : UInt8) :
    live (modifyConn (live slots) ref fun c => announced c cmd) =
      live (modifyConn slots ref fun c => announced c cmd) := by
  have hkeep : ∀ s : Slot, shouldDelete s.conn.state = true →
      shouldDelete (modifySlot ref (fun c => announced c cmd) s).conn.state = true := by
    intro s hs
    unfold modifySlot
    split
    · exact shouldDelete_announced hs cmd
    · exact hs
  rw [modifyConn_eq_map, modifyConn_eq_map, live, live, live, List.filter_map, List.filter_map,
    List.filter_filter]
  refine congrArg (List.map _) (List.filter_congr fun s _ => ?_)
  rw [Function.comp_apply]
  cases hs : shouldDelete s.conn.state
  · exact Bool.and_true _
  · rw [hkeep s hs]
    rfl

theorem live_perform_live (accepting : Bool) (l : Ledger) (a : Announcement) :
    (l.live.perform accepting a).live = (l.perform accepting a).live :=
  congrArg (Ledger.mk · _) (live_modifyConn_live l.slots a.ref a.cmd)

theorem live_foldl_perform_live (accepting : Bool) (l : Ledger) (todo : List Announcement) :
    (todo.foldl (Ledger.perform accepting) l.live).live =
      (todo.foldl (Ledger.perform accepting) l).live := by
  induction todo generalizing l with
  | nil =>
    exact congrArg (Ledger.mk · _) (live_eq_self fun s hs => by
      simpa using (List.mem_filter.mp hs).2)
  | cons a todo ih =>
    rw [List.foldl_cons, List.foldl_cons, ← ih, live_perform_live, ih]

theorem lastWithId_filter_of_nodup {slots : List Slot} (hids : (slots.map fun s => s.conn.id).Nodup)
    (p : Slot → Bool) (i : ℕ) : lastWithId i (slots.filter p) = (lastWithId i slots).filter p := by
  induction slots with
  | nil => rfl
  | cons s slots ih =>
    obtain ⟨hs, hids⟩ := List.nodup_cons.mp hids
    rw [lastWithId_cons, List.filter_cons]
    by_cases hi : s.conn.id = i
    · have hnone : lastWithId i slots = none :=
        lastWithId_eq_none_iff.mpr fun t ht hid => hs (List.mem_map.mpr ⟨t, ht, hid.trans hi.symm⟩)
      have hnone' : lastWithId i (slots.filter p) = none := by rw [ih hids, hnone]; rfl
      rw [hnone, if_pos hi, Option.none_or]
      split_ifs with hp
      · rw [lastWithId_cons, hnone', if_pos hi, Option.none_or, Option.filter_some, if_pos hp]
      · rw [hnone', Option.filter_some, if_neg hp]
    · rw [if_neg hi, Option.or_none, ← ih hids]
      split_ifs
      · rw [lastWithId_cons, if_neg hi, Option.or_none]
      · rfl

/-- For a connection that is removed nothing was due. -/
theorem pending_live {slots : List Slot} (hids : (slots.map fun s => s.conn.id).Nodup)
    (ids : List ℕ) : pending ids (live slots) = pending ids slots := by
  refine List.flatMap_congr fun i _ => ?_
  rw [live, lastWithId_filter_of_nodup hids]
  cases lastWithId i slots with
  | none => rfl
  | some s =>
    rw [Option.filter_some]
    split_ifs with hs
    · rfl
    · have hnil : announcements s.conn = [] := if_pos (by simpa using hs)
      rw [Option.elim_some, hnil]
      rfl

/-! ### Rounds -/

/-- One round: sorting, announcing into the given queue, and removing the connections that are
deleted and closed. The results are whether everything has been announced, the commands queued, and
the endpoint. -/
def changeRound (queue : CmdQueue) (c : Controller) : Bool × List Command × Controller :=
  let start := c.sort.setQueue queue
  match lookup start.slots c.sorted 0 with
  | none => (true, [], start)
  | some tunnel =>
    let r := handleStateChanges c.sorted tunnel start
    (r.1 = .ok, r.2.1.pump.cmdQueue.contents.drop queue.length,
      { r.2.1 with manager := shrink r.2.1.manager })

/-- The connections as a round finds them: the objects and the ids are different, the ids are
between `1` and `255` but for that of the tunnel, which is open, and no connection is deleted and
closed. -/
structure Announceable (c : Controller) : Prop where
  refs : (c.slots.map Slot.ref).Nodup
  ids : (c.slots.map fun s => s.conn.id).Nodup
  id_range : ∀ s ∈ c.slots, 0 ≤ s.conn.id ∧ s.conn.id ≤ 255
  live : ∀ s ∈ c.slots, shouldDelete s.conn.state = false
  tunnel : ∃ s ∈ c.slots, s.conn.id = 0 ∧ s.conn.state.closed = false ∧
    s.conn.inState.closed = false ∧ s.conn.outState.closed = false

/-- Sorting gives out no id where every connection has one. -/
theorem sortConnections_of_ids (stack : List ℤ) {slots : List Slot} (sorted : Conns)
    (hids : ∀ s ∈ slots, 0 ≤ s.conn.id ∧ s.conn.id ≤ 255) :
    sortConnections stack slots sorted = (stack, slots, (sortConnections [] slots sorted).2.2) := by
  induction slots generalizing sorted with
  | nil => rfl
  | cons s slots ih =>
    have hs := hids s List.mem_cons_self
    have hrest := fun sorted => ih sorted fun t ht => hids t (List.mem_cons_of_mem _ ht)
    have hid : ¬((maxConnections : ℤ) < s.conn.id ∨ s.conn.id < 0) := by
      simp only [maxConnections]
      omega
    unfold sortConnections
    rw [if_neg hid, if_neg hid, hrest]

theorem Announceable.sort (h : Announceable c) : c.sort = c := by
  rw [Controller.sort, sortConnections_of_ids c.freeIds _ h.id_range]
  rfl

theorem Announceable.sorted (h : Announceable c) (i : ℕ) :
    c.sorted i = (lastWithId i c.slots).map Slot.ref := by
  have hids : ∀ s ∈ c.slots, s.conn.id ≤ 255 := fun s hs => (h.id_range s hs).2
  rw [Controller.sorted, sortConnections_of_ids c.freeIds _ h.id_range]
  dsimp only
  rw [sortConnections_apply [] c.slots _ hids (by simp),
    sortConnections_of_ids [] _ h.id_range, Option.or_none]

/-- The connections after a round are again as a round finds them. -/
theorem Announceable.live_map (h : Announceable c) {g : Slot → Slot}
    (hg : ∀ s, AnnounceKeeps s (g s))
    {c' : Controller} (hslots : c'.slots = PortForwarding.live (c.slots.map g)) :
    Announceable c' := by
  have hsub : (PortForwarding.live (c.slots.map g)).Sublist (c.slots.map g) := List.filter_sublist
  have hmem : ∀ s' ∈ c'.slots, ∃ s ∈ c.slots, g s = s' := fun s' hs' =>
    List.mem_map.mp (hsub.subset (hslots ▸ hs'))
  refine ⟨?_, ?_, ?_, ?_, ?_⟩
  · rw [hslots]
    refine (hsub.map Slot.ref).nodup ?_
    rw [List.map_map]
    exact (List.map_congr_left fun s _ => (hg s).ref).symm ▸ h.refs
  · rw [hslots]
    refine (hsub.map fun s => s.conn.id).nodup ?_
    rw [List.map_map]
    exact (List.map_congr_left fun s _ => (hg s).id).symm ▸ h.ids
  · intro s' hs'
    obtain ⟨s, hs, rfl⟩ := hmem s' hs'
    rw [(hg s).id]
    exact h.id_range s hs
  · intro s' hs'
    rw [hslots] at hs'
    simpa using (List.mem_filter.mp hs').2
  · obtain ⟨s, hs, hid, hclosed, hin, hout⟩ := h.tunnel
    have hopen : (g s).conn.state.closed = false := (hg s).closed.trans hclosed
    refine ⟨g s, ?_, (hg s).id.trans hid, hopen, (hg s).inClosed.trans hin,
      (hg s).outClosed.trans hout⟩
    rw [hslots]
    exact List.mem_filter.mpr ⟨List.mem_map_of_mem hs, by simp [shouldDelete, hopen]⟩

/-- The tunnel is found, and is open. -/
theorem Announceable.lookup_tunnel (h : Announceable c) :
    ∃ tunnel, lookup c.slots c.sorted 0 = some tunnel ∧ tunnel.conn.state.closed = false ∧
      tunnel.conn.inState.closed = false ∧ tunnel.conn.outState.closed = false := by
  obtain ⟨s, hs, hid, hopen⟩ := h.tunnel
  have hlookup := lookup_of_lastWithId h.refs (h.sorted 0)
  cases hlast : lastWithId 0 c.slots with
  | none => exact absurd hid (lastWithId_eq_none_iff.mp hlast s hs)
  | some t =>
    obtain ⟨ht, htid⟩ := mem_of_lastWithId hlast
    obtain rfl : t = s := List.inj_on_of_nodup_map h.ids ht hs (htid.trans hid.symm)
    exact ⟨t, hlookup.trans hlast, hopen⟩

/-- What comes of the connections and of the free ids once everything is announced. -/
def Controller.settled (c : Controller) : Ledger :=
  ((changesAgenda c.accepting).complete c.ledger).live

/-- What a round with this queue does. -/
structure RoundDoes (queue : CmdQueue) (c : Controller) (r : Bool × List Command × Controller) :
    Prop where
  finished : r.1 = decide (c.due.length ≤ queue.room)
  queued : r.2.1 = (c.due.take queue.room).map Announcement.command
  ledger : r.2.2.ledger =
    ((c.due.take queue.room).foldl (Ledger.perform c.accepting) c.ledger).live
  accepting : r.2.2.accepting = c.accepting

/-- **One round** announces what is due, as much of it as there is room for. -/
theorem changeRound_does (h : Announceable c) (queue : CmdQueue) :
    RoundDoes queue c (changeRound queue c) := by
  obtain ⟨tunnel, htunnel, hclosed, hin, hout⟩ := h.lookup_tunnel
  have hloop : LoopAnnounces c.due (c.setQueue queue)
      (handleStateChanges c.sorted tunnel (c.setQueue queue)) := by
    rw [handleStateChanges, if_neg (by simp [hclosed, hin, hout])]
    exact stateLoop_announces (c := c.setQueue queue) List.nodup_range' ⟨h.refs,
      fun i _ => h.sorted i, fun i _ s hs => h.live s (mem_of_lastWithId hs).1⟩
  have hstart : lookup (c.setQueue queue).slots c.sorted 0 = some tunnel := htunnel
  rw [changeRound, h.sort]
  dsimp only
  rw [hstart]
  constructor
  · refine decide_eq_decide.mpr ?_
    rw [hloop.result]
    change (if queue.room < _ then _ else _) = _ ↔ _
    split_ifs with hlt
    · exact iff_of_false (by rintro ⟨⟩) (Nat.not_le.mpr hlt)
    · exact iff_of_true rfl (Nat.not_lt.mp hlt)
  · dsimp only
    rw [hloop.announced.contents, ← CmdQueue.length_contents]
    exact List.drop_left
  · refine congrArg₂ Ledger.mk ?_ (congrArg Ledger.freeIds hloop.announced.ledger)
    refine (slots_shrink _).trans ?_
    exact congrArg PortForwarding.live (congrArg Ledger.slots hloop.announced.ledger)
  · exact hloop.announced.accepting

/-- Where the changes are cut off makes no difference, nor does the removal of connections. -/
theorem due_of_ledger {c' : Controller} (h : Announceable c) (n : ℕ)
    (hledger : c'.ledger = ((c.due.take n).foldl (Ledger.perform c.accepting) c.ledger).live)
    (hacc : c'.accepting = c.accepting) :
    c'.due = c.due.drop n ∧ c'.settled = c.settled := by
  obtain ⟨g, hslots, hg⟩ := foldl_perform_keeps c.accepting c.ledger (c.due.take n)
  have hids : (((c.due.take n).foldl (Ledger.perform c.accepting) c.ledger).slots.map
      fun s => s.conn.id).Nodup := by
    rw [hslots, List.map_map]
    exact (List.map_congr_left fun s _ => (hg s).id).symm ▸ h.ids
  have htodo := Agenda.todo_foldl_take (A := changesAgenda c.accepting) (s := c.ledger) h.refs n
  have hdue : c'.due = c.due.drop n := by
    have hlive := pending_live hids (List.range' 1 255)
    rw [Controller.due, show c'.slots = _ from congrArg Ledger.slots hledger]
    exact hlive.trans htodo.2
  refine ⟨hdue, ?_⟩
  have hcomplete := Agenda.complete_foldl_take (A := changesAgenda c.accepting) (s := c.ledger)
    h.refs n
  have hleft : (changesAgenda c.accepting).todo c'.ledger = c.due.drop n := hdue
  rw [Controller.settled, hacc, Agenda.complete, hleft, hledger]
  refine (live_foldl_perform_live _ _ _).trans ?_
  rw [Controller.settled, ← hcomplete, Agenda.complete, htodo.2]
  rfl

/-- **The rounds are restartable.** -/
theorem changeRound_restartable :
    Restartable changeRound CmdQueue.room Announceable
      (fun c => c.due.map Announcement.command) Controller.settled where
  valid queue c h := by
    obtain ⟨g, hslots, hg⟩ := foldl_perform_keeps c.accepting c.ledger (c.due.take queue.room)
    refine h.live_map hg ?_
    have hledger := congrArg Ledger.slots (changeRound_does h queue).ledger
    exact hledger.trans (congrArg PortForwarding.live hslots)
  emitted queue c h := by rw [(changeRound_does h queue).queued, List.map_take]
  left queue c h := by
    have hround := changeRound_does h queue
    rw [(due_of_ledger h _ hround.ledger hround.accepting).1, List.map_drop]
  outcome_eq queue c h := by
    have hround := changeRound_does h queue
    exact (due_of_ledger h _ hround.ledger hround.accepting).2
  finished_iff queue c h := by
    rw [(changeRound_does h queue).finished, decide_eq_true_eq, List.length_map]

/-! ### All rounds -/

theorem length_announcements_le (c : Connection) : (announcements c).length ≤ 3 := by
  unfold announcements
  split_ifs <;> simp

theorem length_pending_le (ids : List ℕ) (slots : List Slot) :
    (pending ids slots).length ≤ 3 * ids.length := by
  induction ids with
  | nil => exact Nat.le_refl 0
  | cons i ids ih =>
    have hfirst : ((lastWithId i slots).elim [] fun s =>
        (announcements s.conn).map s.announcement).length ≤ 3 := by
      cases lastWithId i slots with
      | none => exact Nat.zero_le 3
      | some s =>
        rw [Option.elim_some, List.length_map]
        exact length_announcements_le s.conn
    rw [pending_cons, List.length_append, List.length_cons]
    omega

/-- At most three commands are due for each id. -/
theorem Controller.length_due_le (c : Controller) : c.due.length ≤ 3 * 255 := by
  have := length_pending_le (List.range' 1 255) c.slots
  rwa [List.length_range'] at this

/-- When nothing is due, the connections and the free ids are what comes of them. -/
theorem Announceable.settled_of_due (h : Announceable c) (hdue : c.due = []) :
    c.settled = c.ledger := by
  have htodo : (changesAgenda c.accepting).todo c.ledger = [] := hdue
  rw [Controller.settled, Agenda.complete, htodo]
  exact congrArg (Ledger.mk · _) (live_eq_self h.live)

/-- **Announcing in several rounds.** Whatever room each round finds, the rounds that come to an end
have queued the commands of one round with room for all of them, in the same order, and have left
the same connections and the same free ids; rounds that find some room do come to an end. -/
theorem changeRounds_eq (h : Announceable c) {unlimited : CmdQueue}
    (hunlimited : 3 * 255 ≤ unlimited.room) (queues : List CmdQueue) :
    let once := changeRound unlimited c
    let many := rounds changeRound queues c
    once.1 = true ∧
      ((∀ q ∈ queues, 0 < q.room) → 3 * 255 < queues.length → many.1 = true) ∧
      (many.1 = true → many.2.1 = once.2.1 ∧ many.2.2.slots = once.2.2.slots ∧
        many.2.2.freeIds = once.2.2.freeIds) := by
  have hround := changeRound_restartable
  have hfits : (c.due.map Announcement.command).length ≤ unlimited.room := by
    rw [List.length_map]
    exact c.length_due_le.trans hunlimited
  have hledger : ∀ {c' : Controller}, Announceable c' → c'.due.map Announcement.command = [] →
      c'.settled = c.settled → c'.ledger = c.settled := fun hc' hdue hsettled =>
    (hc'.settled_of_due (List.map_eq_nil_iff.mp hdue)).symm.trans hsettled
  have honce : (changeRound unlimited c).2.2.ledger = c.settled := by
    refine hledger (hround.valid unlimited h) ?_ (hround.outcome_eq unlimited h)
    rw [hround.left unlimited h, List.drop_eq_nil_of_le hfits]
  refine ⟨(hround.finished_iff unlimited h).mpr hfits, fun hroom hlen => ?_, fun hfin => ?_⟩
  · refine hround.finishes h hroom ?_
    rw [List.length_map]
    exact c.length_due_le.trans_lt hlen
  · obtain ⟨hvalid, hqueued, hdue, hsettled⟩ := hround.finished h queues hfin
    have hmany := (hledger hvalid hdue hsettled).trans honce.symm
    refine ⟨?_, congrArg Ledger.slots hmany, congrArg Ledger.freeIds hmany⟩
    rw [hqueued, hround.emitted unlimited h, List.take_of_length_le hfits]

/-- The tunnel, a client that has gone before it was announced, and one that has stopped sending. -/
def changedClients : Controller :=
  let start := startController sampleStart sampleBufSize true
  let client (ref : ℕ) (id : ℤ) (state inState outState : ConnState) : Slot :=
    { ref := ref
      conn := ⟨id, state, inState, outState, bufCreate (fun _ => 0) sampleBufSize,
        bufCreate (fun _ => 0) sampleBufSize⟩
      pfd := { fd := ref, events := { pollin := true }, revents := {} }
      own := ref
      inc := ref }
  let ended : ConnState := { eof := true, closed := true }
  start.setSlots (start.slots ++
    [client 2 1 { new := true, closed := true } ended ended, client 1 2 { } ended { }])

/-- Three rounds with room for one command each. -/
theorem changeRounds_eq_changedClients :
    let queues := List.replicate 3 (makeCmdQueue (fun _ => ⟨cmdNop, 0, 0⟩) 1)
    let once := changeRound (makeCmdQueue (fun _ => ⟨cmdNop, 0, 0⟩) (Nat.succPNat 764))
      changedClients
    let many := rounds changeRound queues changedClients
    many.2.1 = once.2.1 ∧ many.2.2.slots = once.2.2.slots ∧
      many.2.2.freeIds = once.2.2.freeIds := by
  have h : Announceable changedClients := by
    refine ⟨by decide, by decide, by decide, by decide, ?_⟩
    exact ⟨_, List.mem_cons_self, rfl, rfl, rfl, rfl⟩
  have hfin : (rounds changeRound (List.replicate 3 (makeCmdQueue (fun _ => ⟨cmdNop, 0, 0⟩) 1))
      changedClients).1 = true := by decide +kernel
  exact (changeRounds_eq h (Nat.le_refl _) _).2.2 hfin

end OsTasks.PortForwarding
