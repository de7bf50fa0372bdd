import OsTasks.PortForwarding.WellFormed

/-!
# An update is a sequence of steps

`update` polls, sorts, announces and transfers. This file cuts each of its parts into the steps of
`Step`, so that what every step keeps holds in every state of a run.

## Main definitions

* `Controller.sorted`, `ConnsOk`: the sorted array, and what it points to.
* `changes`: `beforeTransfer` from the sorted array on.
* `Visit`: the states in which an endpoint can be observed.

## Main results

* `beforeTransfer_run`, `pumpTransfer_run`, `update_run`: the parts of an update and the whole.
* `Visit.stepRun`: every observed state is reached by steps.
* `Visit.induction`: what every step keeps holds in every observed state.
-/

namespace OsTasks.PortForwarding

/-! ### The sorted array -/

/-- The array that `sort_connections` fills. -/
def Controller.sorted (c : Controller) : Conns :=
  (sortConnections c.freeIds c.slots fun _ => none).2.2

/-- Entry `i` of the array points to the last connection with id `i`, unless this connection has
been marked for deletion. -/
def ConnsOk (conns : Conns) (slots : List Slot) : Prop :=
  ∀ i, conns i = ((lastWithId i slots).filter fun s => !s.conn.state.delete).map Slot.ref

theorem lastWithId_map {g : Slot → Slot} {slots : List Slot} (i : ℕ)
    (hid : ∀ s ∈ slots, (g s).conn.id = s.conn.id) :
    lastWithId i (slots.map g) = (lastWithId i slots).map g := by
  induction slots with
  | nil => rfl
  | cons s slots ih =>
    rw [List.map_cons, lastWithId_cons, lastWithId_cons, hid s List.mem_cons_self,
      ih fun t ht => hid t (List.mem_cons_of_mem _ ht)]
    cases lastWithId i slots <;> split <;> rfl

/-- What an entry of the array is looked up to. -/
theorem ConnsOk.lookup_iff {conns : Conns} {slots : List Slot} (h : ConnsOk conns slots)
    (hnd : (slots.map Slot.ref).Nodup) {i : ℕ} {s : Slot} :
    lookup slots conns i = some s ↔
      lastWithId i slots = some s ∧ s.conn.state.delete = false := by
  have hfilter : (lastWithId i slots).filter (fun s => !s.conn.state.delete) = some s ↔
      lastWithId i slots = some s ∧ s.conn.state.delete = false := by
    rw [Option.filter_eq_some_iff, Bool.not_eq_true']
  rw [← hfilter]
  constructor
  · intro hl
    obtain ⟨hs, hconns⟩ := lookup_eq_some hl
    obtain ⟨t, ht, href⟩ := Option.map_eq_some_iff.mp ((h i).symm.trans hconns)
    rw [ht]
    rw [Option.filter_eq_some_iff] at ht
    rw [eq_of_ref_eq hnd (mem_of_lastWithId ht.1).1 hs href]
  · intro hf
    have hs := mem_of_lastWithId (Option.filter_eq_some_iff.mp hf).1
    exact lookup_of_mem hnd hs.1 (by rw [h i, hf]; rfl)

/-- Moving bytes leaves the array as it is. -/
theorem ConnsOk.moved {conns : Conns} {id : ℤ} {slots slots' : List Slot} (h : ConnsOk conns slots)
    (hmoved : SlotsMoved id slots slots') : ConnsOk conns slots' := by
  obtain ⟨g, rfl, hg, -⟩ := hmoved
  intro i
  rw [h i, lastWithId_map i fun s hs => (hg s hs).id]
  cases hlast : lastWithId i slots with
  | none => rfl
  | some s =>
    have hs := hg s (mem_of_lastWithId hlast).1
    simp only [Option.filter, Option.map_some, hs.state]
    split
    · simp [hs.ref]
    · rfl

/-- Every entry of the array points to a connection with its id. Commands of the peer leave this so,
while an entry may point to a connection that has been marked for deletion by them. -/
def EntriesAt (conns : Conns) (slots : List Slot) : Prop :=
  ∀ i ref, conns i = some ref → ∃ s ∈ slots, s.ref = ref ∧ s.conn.id = i

theorem ConnsOk.entriesAt {conns : Conns} {slots : List Slot} (h : ConnsOk conns slots) :
    EntriesAt conns slots := by
  intro i ref href
  obtain ⟨s, hs, hsref⟩ := Option.map_eq_some_iff.mp ((h i).symm.trans href)
  obtain ⟨hmem, hid⟩ := mem_of_lastWithId (Option.filter_eq_some_iff.mp hs).1
  exact ⟨s, hmem, hsref, hid⟩

theorem EntriesAt.id {conns : Conns} {slots : List Slot} (h : EntriesAt conns slots)
    (hnd : (slots.map Slot.ref).Nodup) {i : ℕ} {s : Slot} (hs : lookup slots conns i = some s) :
    s.conn.id = i := by
  obtain ⟨hmem, hconns⟩ := lookup_eq_some hs
  obtain ⟨t, ht, href, hid⟩ := h _ _ hconns
  rw [← eq_of_ref_eq hnd ht hmem href, hid]

theorem EntriesAt.tunnel_id {conns : Conns} {slots : List Slot} (h : EntriesAt conns slots)
    (hnd : (slots.map Slot.ref).Nodup) {tunnel : Slot}
    (htunnel : lookup slots conns 0 = some tunnel) : tunnel.conn.id = 0 := h.id hnd htunnel

/-- Different entries of the array point to different objects. -/
theorem EntriesAt.ref_ne {conns : Conns} {slots : List Slot} (h : EntriesAt conns slots)
    (hnd : (slots.map Slot.ref).Nodup) {i j : ℕ} {s t : Slot}
    (hs : lookup slots conns i = some s) (ht : lookup slots conns j = some t) (hne : i ≠ j) :
    s.ref ≠ t.ref := by
  intro heq
  have hid := h.id hnd hs
  rw [eq_of_ref_eq hnd (lookup_eq_some hs).1 (lookup_eq_some ht).1 heq, h.id hnd ht] at hid
  exact hne (Int.ofNat_inj.mp hid.symm)

theorem EntriesAt.map {conns : Conns} {slots : List Slot} (h : EntriesAt conns slots)
    {g : Slot → Slot} (hg : ∀ s ∈ slots, (g s).ref = s.ref ∧ (g s).conn.id = s.conn.id) :
    EntriesAt conns (slots.map g) := by
  intro i ref href
  obtain ⟨s, hs, hsref, hid⟩ := h i ref href
  exact ⟨g s, List.mem_map_of_mem hs, (hg s hs).1.trans hsref, (hg s hs).2.trans hid⟩

theorem EntriesAt.moved {conns : Conns} {id : ℤ} {slots slots' : List Slot}
    (h : EntriesAt conns slots) (hmoved : SlotsMoved id slots slots') : EntriesAt conns slots' := by
  obtain ⟨g, rfl, hg, -⟩ := hmoved
  exact h.map fun s hs => ⟨(hg s hs).ref, (hg s hs).id⟩

theorem EntriesAt.onCommand {conns : Conns} {c : Controller} (h : EntriesAt conns c.slots)
    (env : ConnectEnv) (command : Command) : EntriesAt conns (onCommand env c command).slots := by
  obtain ⟨opened, heff⟩ := onCommand_effect env c command
  rcases heff.slots with ⟨s, -, -, hslots, -⟩ | ⟨-, -, ⟨-, hslots, -⟩ | ⟨-, -, s, hslots, -⟩⟩ <;>
    rw [hslots]
  · refine h.map fun t _ => ⟨ref_modifySlot _ _ t, ?_⟩
    unfold modifySlot
    split_ifs
    · exact id_commandChange _ _
    · rfl
  · exact h
  · intro i ref href
    obtain ⟨t, ht, htref, hid⟩ := h i ref href
    exact ⟨t, List.mem_append_left _ ht, htref, hid⟩

/-- After sorting, the array is in order if no connection is marked for deletion. -/
theorem WellFormed.connsOk_sort {c : Controller} (h : WellFormed c)
    (hdel : ∀ s ∈ c.sort.slots, s.conn.state.delete = false) :
    ConnsOk c.sorted c.sort.slots := by
  intro i
  rw [Controller.sorted, sortConnections_apply _ _ _ (fun s hs => (h.slotOk s hs).id_le)
    (fun id hid => (h.freeIds id hid).1), Option.or_none]
  change (lastWithId i c.sort.slots).map _ = _
  cases hlast : lastWithId i c.sort.slots with
  | none => rfl
  | some s => simp [Option.filter, hdel s (mem_of_lastWithId hlast).1]

theorem delete_sort {c : Controller} (h : WellFormed c)
    (hdel : ∀ s ∈ c.slots, s.conn.state.delete = false) :
    ∀ s ∈ c.sort.slots, s.conn.state.delete = false := by
  intro s' hs'
  obtain ⟨s, hs, hass⟩ := h.mem_slots_sort hs'
  obtain rfl | ⟨-, id, -, rfl⟩ := hass
  · exact hdel _ hs
  · exact hdel s hs

/-! ### Announcing the changes -/

theorem modifyConn_modifyConn (slots : List Slot) (ref : ℕ) (f g : Connection → Connection) :
    modifyConn (modifyConn slots ref f) ref g = modifyConn slots ref (g ∘ f) := by
  rw [modifyConn_eq_map, modifyConn_eq_map, modifyConn_eq_map, List.map_map]
  congr 1
  funext s
  by_cases h : s.ref = ref
  · subst h
    simp [modifySlot]
  · simp [modifySlot, h]

theorem modifyConn_self {slots : List Slot} (hnd : (slots.map Slot.ref).Nodup) {s : Slot}
    (hs : s ∈ slots) : modifyConn slots s.ref (fun _ => s.conn) = slots := by
  obtain ⟨l₁, l₂, hl, hmod⟩ := modifyConn_eq_append hnd hs fun _ => s.conn
  rw [hmod, hl]

theorem mem_modifyConn {slots : List Slot} (hnd : (slots.map Slot.ref).Nodup) {s : Slot}
    (hs : s ∈ slots) (f : Connection → Connection) :
    { s with conn := f s.conn } ∈ modifyConn slots s.ref f := by
  obtain ⟨l₁, l₂, -, hmod⟩ := modifyConn_eq_append hnd hs f
  rw [hmod]
  exact List.mem_append_right _ List.mem_cons_self

/-- One announcement of `handle_state_changes`. -/
inductive AnnounceStep : Controller → Controller → Prop
  | announce {c : Controller} {s : Slot} {cmd : UInt8} {conn : Connection} {q : CmdQueue}
      (hs : s ∈ c.slots) (hid : 1 ≤ s.conn.id) (hdel : s.conn.state.delete = false)
      (h : Announces s.conn cmd conn)
      (hq : cmdqEnqueue c.pump.cmdQueue ⟨cmd, toByte s.conn.id, s.inc⟩ = some q) :
      AnnounceStep c (c.announce s cmd conn q)

/-- A sequence of announcements. -/
abbrev AnnounceRun : Controller → Controller → Prop := Relation.ReflTransGen AnnounceStep

theorem AnnounceStep.step {c c' : Controller} (h : AnnounceStep c c') : Step c c' := by
  cases h with
  | announce hs hid hdel h hq => exact .announce hs hid hdel h hq

theorem AnnounceRun.stepRun {c c' : Controller} (h : AnnounceRun c c') : StepRun c c' :=
  Relation.ReflTransGen.mono (fun _ _ => AnnounceStep.step) _ _ h

theorem AnnounceRun.wellFormed {c c' : Controller} (hrun : AnnounceRun c c') (h : WellFormed c) :
    WellFormed c' := hrun.stepRun.wellFormed h

/-- A turn of `handle_state_changes` so far: what it has done is a sequence of announcements. -/
structure TurnOk (c : Controller) (s : Slot) (t : Turn) : Prop where
  run : AnnounceRun c (c.apply s t)
  slot : t.slot = { s with conn := t.slot.conn }
  id : t.slot.conn.id = s.conn.id
  delete : t.slot.conn.state.delete = t.closed

theorem map_ref_apply (c : Controller) (s : Slot) (t : Turn) :
    (c.apply s t).slots.map Slot.ref = c.slots.map Slot.ref :=
  map_ref_modifyConn c.slots s.ref fun _ => t.slot.conn

/-- A turn that does nothing. -/
theorem apply_unchanged {c : Controller} (hnd : (c.slots.map Slot.ref).Nodup) {s : Slot}
    (hs : s ∈ c.slots) : c.apply s { slot := s, queue := c.pump.cmdQueue } = c := by
  have hslots : modifyConn c.slots s.ref (fun _ => s.conn) = c.slots := modifyConn_self hnd hs
  unfold Controller.apply Controller.modify
  rw [hslots]
  rfl

theorem turnOk_start {c : Controller} (h : WellFormed c) {s : Slot} (hs : s ∈ c.slots)
    (hdel : s.conn.state.delete = false) :
    TurnOk c s { slot := s, queue := c.pump.cmdQueue } := by
  refine ⟨?_, rfl, rfl, hdel⟩
  rw [apply_unchanged h.nodup hs]

variable {c : Controller} {s : Slot} {t : Turn}

theorem TurnOk.mem (ht : TurnOk c s t) (h : WellFormed c) (hs : s ∈ c.slots) :
    t.slot ∈ (c.apply s t).slots := by
  rw [ht.slot]
  exact mem_modifyConn h.nodup hs fun _ => t.slot.conn

/-- A turn after `cmd` has been queued in it. -/
def Turn.after (t : Turn) (cmd : UInt8) (conn : Connection) (q : CmdQueue) : Turn :=
  { t with
    slot := { t.slot with conn := conn }
    queue := q
    events := .queued t.slot cmd :: t.events
    closed := decide (cmd = cmdClose) }

/-- An announcement within a turn, seen from the endpoint. -/
theorem TurnOk.announce_apply (ht : TurnOk c s t) (hopen : t.closed = false) (cmd : UInt8)
    (conn : Connection) (q : CmdQueue) :
    (c.apply s t).announce t.slot cmd conn q = c.apply s (t.after cmd conn q) := by
  have href : t.slot.ref = s.ref := by rw [ht.slot]
  have hslots : modifyConn (modifyConn c.slots s.ref fun _ => t.slot.conn) t.slot.ref
      (fun _ => conn) = modifyConn c.slots s.ref fun _ => conn := by
    rw [href, modifyConn_modifyConn]
    rfl
  have hmanager : ((c.apply s t).announce t.slot cmd conn q).manager =
      (c.apply s (t.after cmd conn q)).manager :=
    congrArg (fun l => { c.manager with slots := l }) hslots
  have hfree : ((c.apply s t).announce t.slot cmd conn q).freeIds =
      (c.apply s (t.after cmd conn q)).freeIds := by
    unfold Controller.announce Controller.apply Turn.after
    simp only [hopen, ht.id, Bool.false_and, Bool.false_eq_true, if_false, Bool.and_eq_true,
      decide_eq_true_eq]
    rfl
  calc (c.apply s t).announce t.slot cmd conn q
      = { c.apply s (t.after cmd conn q) with
          manager := ((c.apply s t).announce t.slot cmd conn q).manager
          freeIds := ((c.apply s t).announce t.slot cmd conn q).freeIds } := rfl
    _ = c.apply s (t.after cmd conn q) := by rw [hmanager, hfree]

/-- One announcement of a turn is one step. -/
theorem TurnOk.after (ht : TurnOk c s t) (h : WellFormed c) (hs : s ∈ c.slots)
    (hid : 1 ≤ s.conn.id) (hopen : t.closed = false) {cmd : UInt8} {conn : Connection}
    {q : CmdQueue} (hann : Announces t.slot.conn cmd conn)
    (hq : cmdqEnqueue t.queue ⟨cmd, toByte t.slot.conn.id, t.slot.inc⟩ = some q) :
    TurnOk c s (t.after cmd conn q) := by
  refine ⟨?_, ?_, hann.id.trans ht.id, ?_⟩
  · rw [← ht.announce_apply hopen]
    exact ht.run.tail (.announce (ht.mem h hs) (ht.id ▸ hid) (ht.delete.trans hopen) hann hq)
  · unfold Turn.after
    rw [ht.slot]
  · have hdel := ht.delete.trans hopen
    unfold Turn.after
    cases hann with
    | close => rfl
    | new => exact hdel
    | closeIn => exact hdel
    | closeOut => exact hdel

theorem TurnOk.again (ht : TurnOk c s t) : TurnOk c s { t with again := true } :=
  ⟨ht.run, ht.slot, ht.id, ht.delete⟩

/-- `if (!send_command(...)) return STATE_AGAIN;` within a turn that has not closed the
connection. -/
theorem TurnOk.send (ht : TurnOk c s t) (h : WellFormed c) (hs : s ∈ c.slots)
    (hid : 1 ≤ s.conn.id) (hopen : t.closed = false) (cmd : UInt8) (hcmd : cmd ≠ cmdClose)
    (change : Connection → Connection) (hann : Announces t.slot.conn cmd (change t.slot.conn)) :
    TurnOk c s (t.send cmd change) ∧ (t.send cmd change).closed = false := by
  cases hq : cmdqEnqueue t.queue ⟨cmd, toByte t.slot.conn.id, t.slot.inc⟩ with
  | none =>
    have hsend : t.send cmd change = { t with again := true } := by rw [Turn.send, hq]
    rw [hsend]
    exact ⟨ht.again, hopen⟩
  | some q =>
    have hclosed : decide (cmd = cmdClose) = false := decide_eq_false hcmd
    have hsend : t.send cmd change = t.after cmd (change t.slot.conn) q := by
      rw [Turn.send, hq, Turn.after, hclosed, ← hopen]
    rw [hsend]
    exact ⟨ht.after h hs hid hopen hann hq, hclosed⟩

theorem TurnOk.announceClose (ht : TurnOk c s t) (h : WellFormed c) (hs : s ∈ c.slots)
    (hid : 1 ≤ s.conn.id) (hagain : t.again = false) (hopen : t.closed = false)
    (hnew : t.slot.conn.state.new = false) (hclose : shouldCloseConnection t.slot.conn = true) :
    TurnOk c s (announceClose t) := by
  unfold PortForwarding.announceClose
  dsimp only
  cases hq : cmdqEnqueue t.queue ⟨cmdClose, toByte t.slot.conn.id, t.slot.inc⟩ with
  | none =>
    have hsend : ∀ change, t.send cmdClose change = { t with again := true } := fun change => by
      rw [Turn.send, hq]
    have hsame : { t with again := true, closed := !true } = { t with again := true } := by
      rw [hopen]
      rfl
    rw [hsend, hsame]
    exact ht.again
  | some q =>
    have hsend : ∀ change, t.send cmdClose change =
        { t.after cmdClose (change t.slot.conn) q with closed := t.closed } := fun change => by
      rw [Turn.send, hq]
      rfl
    have hsame : ∀ conn, { t.after cmdClose conn q with closed := !t.again } =
        t.after cmdClose conn q := fun conn => by
      rw [hagain]
      rfl
    rw [hsend]
    change TurnOk c s { t.after cmdClose _ q with closed := !t.again }
    rw [hsame]
    exact ht.after h hs hid hopen (.close hnew hclose) hq

theorem TurnOk.announceCloseIn (ht : TurnOk c s t) (h : WellFormed c) (hs : s ∈ c.slots)
    (hid : 1 ≤ s.conn.id) (hopen : t.closed = false) (hnew : t.slot.conn.state.new = false) :
    TurnOk c s (announceCloseIn t) ∧ (announceCloseIn t).closed = false ∧
      (announceCloseIn t).slot.conn.state.new = false := by
  unfold PortForwarding.announceCloseIn
  split_ifs with hcond
  · rw [Bool.and_eq_true, Bool.not_eq_true'] at hcond
    have hsend := ht.send h hs hid hopen cmdCloseSrcToDst (by decide)
      (fun c => { c with inState := { c.inState with delete := true } })
      (.closeIn hnew hcond.1 hcond.2)
    refine ⟨hsend.1, hsend.2, ?_⟩
    unfold Turn.send
    split <;> exact hnew
  · exact ⟨ht, hopen, hnew⟩

theorem TurnOk.announceCloseOut (ht : TurnOk c s t) (h : WellFormed c) (hs : s ∈ c.slots)
    (hid : 1 ≤ s.conn.id) (hopen : t.closed = false) (hnew : t.slot.conn.state.new = false) :
    TurnOk c s (announceCloseOut t) := by
  unfold PortForwarding.announceCloseOut
  split_ifs with hcond
  · rw [Bool.and_eq_true, Bool.not_eq_true'] at hcond
    exact (ht.send h hs hid hopen cmdCloseDstToSrc (by decide)
      (fun c => { c with outState := { c.outState with delete := true } })
      (.closeOut hnew hcond.1 hcond.2)).1
  · exact ht

theorem turnOk_announceNew (h : WellFormed c) (hs : s ∈ c.slots) (hid : 1 ≤ s.conn.id)
    (hdel : s.conn.state.delete = false) :
    TurnOk c s (announceNew { slot := s, queue := c.pump.cmdQueue }) ∧
      (announceNew { slot := s, queue := c.pump.cmdQueue }).closed = false ∧
      ((announceNew { slot := s, queue := c.pump.cmdQueue }).again = false →
        (announceNew { slot := s, queue := c.pump.cmdQueue }).slot.conn.state.new = false) := by
  have hstart := turnOk_start h hs hdel
  unfold announceNew isNewConnection
  split_ifs with hn
  · have hsend := hstart.send h hs hid rfl cmdNew (by decide)
      (fun c => { c with state := { c.state with new := false, stopped := true } }) (.new hn)
    refine ⟨hsend.1, hsend.2, fun hagain => ?_⟩
    unfold Turn.send at hagain ⊢
    split at hagain
    · exact absurd hagain.symm Bool.false_ne_true
    · rfl
  · exact ⟨hstart, rfl, fun _ => Bool.eq_false_of_not_eq_true hn⟩

/-- **A turn of `handle_state_changes` is a sequence of announcements.** -/
theorem turnOk_stateTurn (h : WellFormed c) (hs : s ∈ c.slots) (hid : 1 ≤ s.conn.id)
    (hdel : s.conn.state.delete = false) : TurnOk c s (stateTurn s c.pump.cmdQueue) := by
  obtain ⟨hok, hopen, hnew⟩ := turnOk_announceNew h hs hid hdel
  unfold stateTurn
  dsimp only
  by_cases hagain : (announceNew { slot := s, queue := c.pump.cmdQueue }).again = true
  · rw [if_pos hagain]
    exact hok
  · rw [if_neg hagain]
    have hagain := Bool.eq_false_of_not_eq_true hagain
    split_ifs with hclose hagain'
    · exact hok.announceClose h hs hid hagain hopen (hnew hagain) hclose
    · exact (hok.announceCloseIn h hs hid hopen (hnew hagain)).1
    · obtain ⟨hin, hopen', hnew'⟩ := hok.announceCloseIn h hs hid hopen (hnew hagain)
      exact hin.announceCloseOut h hs hid hopen' hnew'

/-- The array after a turn on entry `i`. -/
theorem ConnsOk.turn {conns : Conns} (hconns : ConnsOk conns c.slots) (h : WellFormed c)
    (ht : TurnOk c s t) {i : ℕ} (hlookup : lookup c.slots conns i = some s) :
    ConnsOk (if t.closed then Function.update conns i none else conns) (c.apply s t).slots := by
  obtain ⟨hlast, hdel⟩ := (hconns.lookup_iff h.nodup).mp hlookup
  obtain ⟨hs, hids⟩ := mem_of_lastWithId hlast
  intro j
  have hid : ∀ u ∈ c.slots, (modifySlot s.ref (fun _ => t.slot.conn) u).conn.id = u.conn.id :=
    fun u hu => id_modifySlot h.nodup hs ht.id hu
  change _ = ((lastWithId j (c.slots.map (modifySlot s.ref fun _ => t.slot.conn))).filter _).map _
  rw [lastWithId_map j hid]
  by_cases hij : j = i
  · subst hij
    rw [hlast, Option.map_some, modifySlot_self]
    have hentry : conns j = some s.ref := (lookup_eq_some hlookup).2
    cases hclosed : t.closed <;> simp [Option.filter, ht.delete, hclosed, hentry]
  · have hkeep : (if t.closed then Function.update conns i none else conns) j = conns j := by
      split
      · exact Function.update_of_ne hij _ _
      · rfl
    rw [hkeep, hconns j]
    cases hlastj : lastWithId j c.slots with
    | none => rfl
    | some u =>
      obtain ⟨hu, hidu⟩ := mem_of_lastWithId hlastj
      have hne : u.ref ≠ s.ref := by
        intro href
        rw [eq_of_ref_eq h.nodup hu hs href] at hidu
        exact hij (by omega)
      rw [Option.map_some, modifySlot_of_ne hne]

/-- **The loop of `handle_state_changes` is a sequence of announcements**, and leaves the array in
order if it comes to its end. -/
theorem stateLoop_run (ids : List ℕ) (hids : ∀ i ∈ ids, 1 ≤ i) {conns : Conns} {c : Controller}
    (h : WellFormed c) (hconns : ConnsOk conns c.slots) :
    AnnounceRun c (stateLoop ids conns c).2.1 ∧
      ((stateLoop ids conns c).1 ≠ .again →
        ConnsOk (stateLoop ids conns c).2.2 (stateLoop ids conns c).2.1.slots) := by
  induction ids generalizing conns c with
  | nil => exact ⟨.refl, fun _ => hconns⟩
  | cons i ids ih =>
    have hrest : ∀ j ∈ ids, 1 ≤ j := fun j hj => hids j (List.mem_cons_of_mem _ hj)
    unfold stateLoop
    cases hlookup : lookup c.slots conns i with
    | none => exact ih hrest h hconns
    | some s =>
      obtain ⟨hlast, hdel⟩ := (hconns.lookup_iff h.nodup).mp hlookup
      obtain ⟨hs, hid⟩ := mem_of_lastWithId hlast
      have hi := hids i List.mem_cons_self
      have ht := turnOk_stateTurn h hs (by omega) hdel
      by_cases hagain : (stateTurn s c.pump.cmdQueue).again = true
      · simp only [hagain, if_true]
        exact ⟨ht.run, fun hne => absurd rfl hne⟩
      · simp only [hagain, Bool.false_eq_true, if_false]
        have hnext := ih hrest (ht.run.wellFormed h) (hconns.turn h ht hlookup)
        exact ⟨ht.run.trans hnext.1, hnext.2⟩

theorem handleStateChanges_run {conns : Conns} (tunnel : Slot) {c : Controller}
    (h : WellFormed c) (hconns : ConnsOk conns c.slots) :
    AnnounceRun c (handleStateChanges conns tunnel c).2.1 ∧
      ((handleStateChanges conns tunnel c).1 ≠ .again →
        ConnsOk (handleStateChanges conns tunnel c).2.2
          (handleStateChanges conns tunnel c).2.1.slots) := by
  unfold handleStateChanges
  split_ifs
  · exact ⟨.refl, fun _ => hconns⟩
  · refine stateLoop_run _ (fun i hi => ?_) h hconns
    rw [List.mem_range'_1] at hi
    exact hi.1

/-! ### The pump -/

/-- The next frame of the tunnel is handled in steps. -/
theorem nextFrame_run {env : PumpEnv} {conns : Conns} {c c' : Controller} (h : WellFormed c)
    (hconns : ConnsOk conns c.slots) (hsend : c.pump.sendingTo = -1)
    (hc : nextFrame (onCommand env.connect) env conns c = .ok c') :
    StepRun c c' ∧ EntriesAt conns c'.slots := by
  unfold nextFrame at hc
  split at hc
  · cases hc
  rename_i tunnel htunnel
  dsimp only at hc
  split_ifs at hc with havail hend hcmd harg
  · obtain rfl := Except.ok.inj hc
    exact ⟨.refl, hconns.entriesAt⟩
  · obtain rfl := Except.ok.inj hc
    let cmd := ((bufPeek tunnel.conn.inBuf 3).getD []).getD 2 0
    let buf := bufAdvanceReadPtr tunnel.conn.inBuf 3
    let c₁ := (c.modify tunnel.ref fun conn => { conn with inBuf := buf }).note
      (.received cmd ((bufPeekByte buf).getD 0))
    have hmoved₁ : SlotsMoved 0 c.slots c₁.slots :=
      slotsMoved_inBuf 0 c.slots tunnel.ref fun _ => buf
    have h₁ : Step c c₁ := .quiet
      ⟨hmoved₁, rfl, rfl, rfl, rfl, rfl, .inr ⟨_, .received _ _, rfl⟩⟩
    have h₂ := Step.handle (c := c₁) env.connect cmd ((bufPeekByte buf).getD 0) hsend
    have hmoved₃ := slotsMoved_inBuf 0
      (onCommand env.connect c₁ ⟨cmd, (bufPeekByte buf).getD 0, 0⟩).slots tunnel.ref
      fun buf => bufAdvanceReadPtr buf 2
    exact ⟨.tail (.tail (.single h₁) h₂) (.quiet (.of_modify hmoved₃)),
      ((hconns.entriesAt.moved hmoved₁).onCommand env.connect _).moved hmoved₃⟩
  · split at hc
    · cases hc
    rename_i target htarget
    obtain rfl := Except.ok.inj hc
    obtain ⟨hlast, hdel⟩ := (hconns.lookup_iff h.nodup).mp htarget
    let tunnel' : Slot :=
      { tunnel with conn := { tunnel.conn with inBuf := bufAdvanceReadPtr tunnel.conn.inBuf 2 } }
    have hid : 1 ≤ (((bufPeek tunnel.conn.inBuf 3).getD []).getD 1 0).toNat := by
      rw [Nat.one_le_iff_ne_zero]
      exact fun hzero => hcmd (UInt8.toNat_inj.mp hzero)
    have hstep := Step.deliver env tunnel' hid hlast hdel (.inl hsend)
    rw [deliver_of_idle hsend]
    have hmoved := slotsMoved_deliver h.nodup env
      (((bufPeek tunnel.conn.inBuf 3).getD []).getD 1 0).toNat tunnel' (mem_of_lastWithId hlast).1
    exact ⟨.single hstep, hconns.entriesAt.moved hmoved⟩
  · obtain rfl := Except.ok.inj hc
    exact ⟨.refl, hconns.entriesAt⟩

/-- **Receiving is a sequence of steps.** -/
theorem recvFromTunnel_run {env : PumpEnv} {conns : Conns} {c c' : Controller} (h : WellFormed c)
    (hconns : ConnsOk conns c.slots)
    (hc : recvFromTunnel (onCommand env.connect) env conns c = .ok c') :
    StepRun c c' ∧ EntriesAt conns c'.slots := by
  unfold recvFromTunnel at hc
  split at hc
  · cases hc
  rename_i tunnel htunnel
  by_cases hempty : bufEmpty tunnel.conn.inBuf = true
  · rw [if_pos hempty] at hc
    obtain rfl := Except.ok.inj hc
    exact ⟨.refl, hconns.entriesAt⟩
  rw [if_neg hempty] at hc
  by_cases hsend : c.pump.sendingTo = -1
  · rw [if_neg (not_not_intro hsend)] at hc
    exact nextFrame_run h hconns hsend hc
  · rw [if_pos hsend] at hc
    split at hc
    · cases hc
    rename_i target htarget
    obtain ⟨hlast, hdel⟩ := (hconns.lookup_iff h.nodup).mp htarget
    have hrange := h.sendingTo.resolve_left hsend
    have hk : c.pump.sendingTo = (c.pump.sendingTo.toNat : ℤ) := by omega
    have hstep := Step.deliver env tunnel (by omega) hlast hdel (.inr hk)
    have hmoved := slotsMoved_deliver h.nodup env c.pump.sendingTo.toNat tunnel
      (mem_of_lastWithId hlast).1
    dsimp only at hc
    have hdeliver := deliver_of_busy hk env tunnel target
    by_cases hend : (decodeTo env c.pump.sendingTo.toNat tunnel target c).1 = true
    · rw [if_pos hend] at hc hdeliver
      rw [← hdeliver] at hstep
      have hrest := nextFrame_run (hstep.wellFormed h) (hconns.moved hmoved) rfl hc
      exact ⟨.head hstep hrest.1, hrest.2⟩
    · rw [if_neg hend] at hc hdeliver
      obtain rfl := Except.ok.inj hc
      rw [← hdeliver] at hstep
      exact ⟨.single hstep, hconns.entriesAt.moved hmoved⟩

theorem length_encodeCommand (buf : RoundBuffer) (cmd arg : UInt8) :
    buf.length ≤ (encodeCommand buf cmd arg).2.length := by
  have := buf.length_le
  unfold encodeCommand
  split_ifs
  · exact Nat.le_refl _
  · dsimp only
    rw [length_bufAdvanceWritePtr]
    dsimp only
    omega

theorem length_encode (src dst : RoundBuffer) (id : UInt8) :
    dst.length ≤ (encode src dst id).2.2.length := by
  have := dst.length_le
  unfold encode
  dsimp only
  split_ifs
  · exact Nat.le_refl _
  · exact Nat.le_refl _
  · rw [length_bufAdvanceWritePtr]
    exact Nat.le_min.mpr ⟨Nat.le_add_right _ _, this⟩

/-- Sending the queued commands is a sequence of steps. -/
theorem drainCommands_run {conns : Conns} (n : ℕ) {c : Controller} (h : WellFormed c)
    (hentries : EntriesAt conns c.slots) :
    StepRun c (drainCommands conns n c).2 ∧ EntriesAt conns (drainCommands conns n c).2.slots := by
  induction n generalizing c with
  | zero => exact ⟨.refl, hentries⟩
  | succ n ih =>
    unfold drainCommands
    by_cases hlen : cmdqLength c.pump.cmdQueue = 0
    · rw [if_pos hlen]
      exact ⟨.refl, hentries⟩
    rw [if_neg hlen]
    dsimp only
    split
    · exact ⟨.single (.quiet ⟨.refl 0 _, rfl, rfl, rfl, rfl, rfl, .inl rfl⟩), hentries⟩
    rename_i tunnel htunnel
    have hmem : tunnel ∈ c.slots := (lookup_eq_some htunnel).1
    have hid : tunnel.conn.id = 0 := hentries.tunnel_id h.nodup htunnel
    by_cases hfits : (encodeCommand tunnel.conn.outBuf (cmdqDequeue c.pump.cmdQueue).1.cmd
        (cmdqDequeue c.pump.cmdQueue).1.arg).1 = true
    · rw [if_pos hfits]
      have hmoved := slotsMoved_outBuf h.nodup hmem
        (length_encodeCommand tunnel.conn.outBuf (cmdqDequeue c.pump.cmdQueue).1.cmd
          (cmdqDequeue c.pump.cmdQueue).1.arg)
      rw [hid] at hmoved
      have hstep : Step c (((c.setQueue (cmdqDequeue c.pump.cmdQueue).2).modify tunnel.ref
        fun conn =>
          { conn with
            outBuf := (encodeCommand tunnel.conn.outBuf (cmdqDequeue c.pump.cmdQueue).1.cmd
              (cmdqDequeue c.pump.cmdQueue).1.arg).2 }).note
            (.sent (cmdqDequeue c.pump.cmdQueue).1)) :=
        .quiet ⟨hmoved, rfl, rfl, rfl, rfl, rfl, .inr ⟨_, .sent _, rfl⟩⟩
      have hrest := ih (hstep.wellFormed h) (hentries.moved hmoved)
      exact ⟨.head hstep hrest.1, hrest.2⟩
    · rw [if_neg hfits]
      exact ⟨.single (.quiet ⟨.refl 0 _, rfl, rfl, rfl, rfl, rfl, .inr ⟨_, .dropped _, rfl⟩⟩),
        hentries⟩

/-- Encoding the inputs of the connections is a sequence of steps. -/
theorem encodeConnections_run {conns : Conns} (index : ℕ) (is : List ℕ) {c : Controller}
    (h : WellFormed c) (hentries : EntriesAt conns c.slots) :
    StepRun c (encodeConnections conns index is c) := by
  induction is generalizing c with
  | nil => exact .refl
  | cons i is ih =>
    unfold encodeConnections
    dsimp only
    split
    · rename_i s tunnel hs htunnel
      have hmem : s ∈ c.slots := (lookup_eq_some hs).1
      have hmem' : tunnel ∈ c.slots := (lookup_eq_some htunnel).1
      by_cases halive : (!isAlive s.conn.state || !isAlive s.conn.inState) = true
      · rw [if_pos halive]
        exact ih h hentries
      rw [if_neg halive]
      by_cases hfits : (encode s.conn.inBuf tunnel.conn.outBuf (toByte s.conn.id)).1 = true
      · rw [if_pos hfits]
        have hboth : isAlive s.conn.state = true ∧ isAlive s.conn.inState = true := by
          simpa [-isAlive_iff] using halive
        let r := encode s.conn.inBuf tunnel.conn.outBuf (toByte s.conn.id)
        let c' := (c.modify s.ref fun conn => { conn with inBuf := r.2.1 }).modify tunnel.ref
          fun conn => { conn with outBuf := r.2.2 }
        have hmoved : SlotsMoved 0 c.slots c'.slots :=
          hentries.tunnel_id h.nodup htunnel ▸ slotsMoved_inBuf_outBuf h.nodup s.ref
            (fun _ => r.2.1) hmem' (length_encode s.conn.inBuf tunnel.conn.outBuf
              (toByte s.conn.id))
        by_cases hempty : bufEmpty s.conn.inBuf = true
        · rw [if_pos hempty]
          have hstep : Step c c' := .quiet ⟨hmoved, rfl, rfl, rfl, rfl, rfl, .inl rfl⟩
          exact .head hstep (ih (hstep.wellFormed h) (hentries.moved hmoved))
        · rw [if_neg hempty]
          have hstep : Step c (c'.note (.encoded s
              (s.conn.inBuf.contents.take (s.conn.inBuf.length - r.2.1.length)))) :=
            .quiet ⟨hmoved, rfl, rfl, rfl, rfl, rfl, .inr ⟨_, .encoded _ hmem hboth.1 hboth.2, rfl⟩⟩
          exact .head hstep (ih (hstep.wellFormed h) (hentries.moved hmoved))
      · rw [if_neg hfits]
        exact .single (.quiet ⟨.refl 0 _, rfl, rfl, rfl, rfl, rfl, .inl rfl⟩)
    · exact ih h hentries

/-- **The pump is a sequence of steps.** -/
theorem pumpTransfer_run {env : PumpEnv} {conns : Conns} {c c' : Controller} (h : WellFormed c)
    (hconns : ConnsOk conns c.slots)
    (hc : pumpTransfer (onCommand env.connect) env conns c = .ok c') : StepRun c c' := by
  unfold pumpTransfer at hc
  cases hrecv : recvFromTunnel (onCommand env.connect) env conns c with
  | error fault => rw [hrecv] at hc; cases hc
  | ok c₁ =>
    obtain ⟨h₁, hentries₁⟩ := recvFromTunnel_run h hconns hrecv
    have hwf₁ := h₁.wellFormed h
    obtain ⟨h₂, hentries₂⟩ := drainCommands_run (cmdqLength c₁.pump.cmdQueue) hwf₁ hentries₁
    simp only [hrecv, bind, Except.bind] at hc
    split_ifs at hc
    · obtain rfl := Except.ok.inj hc
      exact (h₁.trans h₂).trans (encodeConnections_run _ _ (h₂.wellFormed hwf₁) hentries₂)
    · obtain rfl := Except.ok.inj hc
      exact h₁.trans h₂

/-! ### The update -/

/-- After polling without an error no connection is marked for deletion. -/
theorem delete_of_cmPoll {env : PollEnv} {m m' : Manager} (h : cmPoll env m = .ok (m', .none)) :
    ∀ s ∈ m'.slots, s.conn.state.delete = false := by
  have hleft : ∀ m₀ : Manager, ∀ s ∈ (shrink (closeSockets m₀)).slots,
      s.conn.state.delete = false := by
    intro m₀ s' hs'
    rw [slots_shrink_closeSockets, List.mem_filterMap] at hs'
    obtain ⟨s, -, hs⟩ := hs'
    split_ifs at hs with hkeep
    obtain rfl := Option.some.inj hs
    rw [shouldDelete_iff, not_and] at hkeep
    by_contra hdel
    rw [Bool.not_eq_false] at hdel
    exact hkeep hdel (closed_closeSocket_of_delete ((SlotOp.close s).keeps.delete.symm.trans hdel))
  unfold cmPoll at h
  dsimp only at h
  split at h
  · cases h
  · rename_i ready hready
    split_ifs at h
    · cases h
    · cases haccept : acceptConnection env.accept (pollAll ready (beforePoll m)) with
      | error fault => simp [haccept, bind, Except.bind] at h
      | ok m₁ =>
        simp only [haccept, bind, Except.bind] at h
        obtain ⟨rfl, -⟩ := Prod.mk.inj (Except.ok.inj h)
        exact hleft _
    · obtain ⟨rfl, -⟩ := Prod.mk.inj (Except.ok.inj h)
      exact hleft _

/-- `beforeTransfer` from the sorted array on. -/
def changes (conns : Conns) (c : Controller) : Except Fault (Controller × (CloseCause ⊕ Conns)) :=
  match lookup c.slots conns 0 with
  | none => .ok (c, .inl .none)
  | some tunnel =>
    match handleStateChanges conns tunnel c with
    | (.again, c, _) => .ok (c, .inl .none)
    | (.shutdown, c, _) => .ok (c, .inl .error)
    | (.ok, c, conns) => .ok (c, .inr conns)

theorem beforeTransfer_of_cmPoll {env : PollEnv} {c : Controller} {m : Manager}
    (hpoll : cmPoll env c.manager = .ok (m, .none)) :
    beforeTransfer env c =
      changes (Controller.sorted { c with manager := m })
      (Controller.sort { c with manager := m }) := by
  unfold beforeTransfer
  simp only [hpoll, bind, Except.bind]
  rw [if_neg (not_not_intro rfl)]
  rfl

theorem beforeTransfer_of_cause {env : PollEnv} {c : Controller} {m : Manager} {cause : CloseCause}
    (hpoll : cmPoll env c.manager = .ok (m, cause)) (hcause : cause ≠ .none) :
    beforeTransfer env c = .ok ({ c with manager := m }, .inl cause) := by
  unfold beforeTransfer
  simp only [hpoll, bind, Except.bind]
  rw [if_pos hcause]

/-- What `handle_state_changes` leads to. -/
theorem changes_cases {conns : Conns} {c c' : Controller} {next : CloseCause ⊕ Conns}
    (hc : changes conns c = .ok (c', next)) :
    c' = c ∧ (∃ cause, next = .inl cause) ∨
      ∃ tunnel, lookup c.slots conns 0 = some tunnel ∧
        c' = (handleStateChanges conns tunnel c).2.1 ∧
        ((∃ cause, next = .inl cause) ∨ (handleStateChanges conns tunnel c).1 = .ok ∧
          next = .inr (handleStateChanges conns tunnel c).2.2) := by
  unfold changes at hc
  split at hc
  · obtain ⟨rfl, rfl⟩ := Prod.mk.inj (Except.ok.inj hc)
    exact .inl ⟨rfl, _, rfl⟩
  · rename_i tunnel htunnel
    refine .inr ⟨tunnel, htunnel, ?_⟩
    split at hc <;> rename_i heq <;> rw [heq] <;>
      obtain ⟨rfl, rfl⟩ := Prod.mk.inj (Except.ok.inj hc)
    · exact ⟨rfl, .inl ⟨_, rfl⟩⟩
    · exact ⟨rfl, .inl ⟨_, rfl⟩⟩
    · exact ⟨rfl, .inr ⟨rfl, rfl⟩⟩

/-- `cm_poll` has found an error or a request to stop, or the changes are announced. -/
theorem beforeTransfer_cases {env : PollEnv} {c c' : Controller} {next : CloseCause ⊕ Conns}
    (hc : beforeTransfer env c = .ok (c', next)) :
    ∃ m cause, cmPoll env c.manager = .ok (m, cause) ∧
      (c' = { c with manager := m } ∧ next = .inl cause ∨
        cause = .none ∧ changes (Controller.sorted { c with manager := m })
          (Controller.sort { c with manager := m }) = .ok (c', next)) := by
  cases hpoll : cmPoll env c.manager with
  | error fault =>
    unfold beforeTransfer at hc
    rw [hpoll] at hc
    cases hc
  | ok r =>
    obtain ⟨m, cause⟩ := r
    refine ⟨m, cause, rfl, ?_⟩
    by_cases hcause : cause = .none
    · subst hcause
      exact .inr ⟨rfl, (beforeTransfer_of_cmPoll hpoll).symm.trans hc⟩
    · rw [beforeTransfer_of_cause hpoll hcause] at hc
      obtain ⟨rfl, rfl⟩ := Prod.mk.inj (Except.ok.inj hc)
      exact .inl ⟨rfl, rfl⟩

/-- The pump is not entered, or it ends the update. -/
theorem update_cases {env : Env} {c c' : Controller} {cause : CloseCause}
    (hc : update env c = .ok (c', cause)) :
    beforeTransfer env.poll c = .ok (c', .inl cause) ∨
      ∃ c₁ conns, beforeTransfer env.poll c = .ok (c₁, .inr conns) ∧
        pumpTransfer (onCommand env.pump.connect) env.pump conns c₁ = .ok c' ∧ cause = .none := by
  unfold update at hc
  cases hbefore : beforeTransfer env.poll c with
  | error fault => rw [hbefore] at hc; cases hc
  | ok r =>
    obtain ⟨c₁, next⟩ := r
    simp only [hbefore, bind, Except.bind] at hc
    cases next with
    | inl cause =>
      obtain ⟨rfl, rfl⟩ := Prod.mk.inj (Except.ok.inj hc)
      exact .inl rfl
    | inr conns =>
      dsimp only at hc
      cases hpump : pumpTransfer (onCommand env.pump.connect) env.pump conns c₁ with
      | error fault => rw [hpump] at hc; cases hc
      | ok c₂ =>
        rw [hpump] at hc
        obtain ⟨rfl, rfl⟩ := Prod.mk.inj (Except.ok.inj hc)
        exact .inr ⟨c₁, conns, rfl, hpump, rfl⟩

theorem changes_run {conns : Conns} {c c' : Controller} {next : CloseCause ⊕ Conns}
    (h : WellFormed c) (hconns : ConnsOk conns c.slots) (hc : changes conns c = .ok (c', next)) :
    AnnounceRun c c' ∧ ∀ conns, next = .inr conns → ConnsOk conns c'.slots := by
  rcases changes_cases hc with ⟨rfl, cause, rfl⟩ | ⟨tunnel, -, rfl, ⟨cause, rfl⟩ | ⟨hok, rfl⟩⟩
  · exact ⟨.refl, fun _ hn => absurd hn Sum.inl_ne_inr⟩
  · exact ⟨(handleStateChanges_run tunnel h hconns).1, fun _ hn => absurd hn Sum.inl_ne_inr⟩
  · obtain ⟨hrun, hnext⟩ := handleStateChanges_run tunnel h hconns
    refine ⟨hrun, fun conns hn => ?_⟩
    obtain rfl := Sum.inr.inj hn
    exact hnext (by rw [hok]; decide)

/-- An update that goes on, up to the pump: `cm_poll` has found no error, and then nothing happens
or the connections are sorted and changes are announced. -/
theorem beforeTransfer_polled {env : PollEnv} {c c' : Controller} {next : CloseCause ⊕ Conns}
    (hwf : WellFormed c) (hc : beforeTransfer env c = .ok (c', next))
    (hnext : next = .inl .none ∨ ∃ conns, next = .inr conns) :
    ∃ m, cmPoll env c.manager = .ok (m, .none) ∧
      AnnounceRun (Controller.sort { c with manager := m }) c' := by
  obtain ⟨m, cause, hpoll, hpolled⟩ := beforeTransfer_cases hc
  obtain ⟨rfl, hchanges⟩ : cause = .none ∧ changes (Controller.sorted { c with manager := m })
      (Controller.sort { c with manager := m }) = .ok (c', next) := by
    rcases hpolled with ⟨-, rfl⟩ | hchanges
    · rcases hnext with heq | ⟨conns, heq⟩
      · obtain rfl := Sum.inl.inj heq
        rw [beforeTransfer_of_cmPoll hpoll] at hc
        exact ⟨rfl, hc⟩
      · exact absurd heq Sum.inl_ne_inr
    · exact hchanges
  have hwf₁ : WellFormed { c with manager := m } := hwf.poll hpoll
  exact ⟨m, hpoll, (changes_run hwf₁.sort
    (hwf₁.connsOk_sort (delete_sort hwf₁ (delete_of_cmPoll hpoll))) hchanges).1⟩

/-- **The part of an update before the pump is a sequence of steps.** When the pump is entered, the
sorted array is in order. -/
theorem beforeTransfer_run {env : PollEnv} {c c' : Controller} {next : CloseCause ⊕ Conns}
    (h : WellFormed c) (hc : beforeTransfer env c = .ok (c', next)) :
    StepRun c c' ∧ ∀ conns, next = .inr conns → ConnsOk conns c'.slots := by
  obtain ⟨m, cause, hpoll, ⟨rfl, rfl⟩ | ⟨rfl, hchanges⟩⟩ := beforeTransfer_cases hc
  · exact ⟨.single (.poll hpoll), fun _ hn => absurd hn Sum.inl_ne_inr⟩
  · have h₁ : Step c { c with manager := m } := .poll hpoll
    have hwf₁ := h₁.wellFormed h
    have hdel : ∀ s ∈ ({ c with manager := m } : Controller).slots, s.conn.state.delete = false :=
      delete_of_cmPoll hpoll
    have h₂ : Step { c with manager := m } (Controller.sort { c with manager := m }) := .sort hdel
    have hconns := hwf₁.connsOk_sort (delete_sort hwf₁ hdel)
    obtain ⟨hrun, hnext⟩ := changes_run (h₂.wellFormed hwf₁) hconns hchanges
    exact ⟨.head h₁ (.head h₂ hrun.stepRun), hnext⟩

/-- **An update is a sequence of steps.** -/
theorem update_run {env : Env} {c c' : Controller} {cause : CloseCause} (h : WellFormed c)
    (hc : update env c = .ok (c', cause)) : StepRun c c' := by
  rcases update_cases hc with hbefore | ⟨c₁, conns, hbefore, hpump, -⟩
  · exact (beforeTransfer_run h hbefore).1
  · obtain ⟨hrun, hconns⟩ := beforeTransfer_run h hbefore
    exact hrun.trans (pumpTransfer_run (hrun.wellFormed h) (hconns conns rfl) hpump)

/-! ### Runs -/

/-- The endpoint after updates in the given environments, if all return `CLOSE_CAUSE_NONE`. -/
def updates : List Env → Controller → Option Controller
  | [], c => some c
  | env :: envs, c =>
    match update env c with
    | .ok (c', .none) => updates envs c'
    | _ => none

theorem reach_updates {bufSize : ℕ+} {accepting : Bool} {envs : List Env} {c c' : Controller}
    (h : Reach bufSize accepting c) (hc : updates envs c = some c') :
    Reach bufSize accepting c' := by
  induction envs generalizing c with
  | nil =>
    obtain rfl := Option.some.inj hc
    exact h
  | cons env envs ih =>
    unfold updates at hc
    split at hc
    · rename_i c₁ hupdate
      exact ih (.update env h hupdate) hc
    · exact absurd hc.symm (Option.some_ne_none c')

/-- The states in which an endpoint can be observed: at its start and between two updates, when
`pump_transfer` is entered, and after its last update. -/
inductive Visit (bufSize : ℕ+) (accepting : Bool) : Controller → Prop
  | reach {c : Controller} (h : Reach bufSize accepting c) : Visit bufSize accepting c
  | entry {c c' : Controller} (h : Reach bufSize accepting c) {env : PollEnv}
      {next : CloseCause ⊕ Conns} (hc : beforeTransfer env c = .ok (c', next)) :
      Visit bufSize accepting c'
  | last {c c' : Controller} (h : Reach bufSize accepting c) {env : Env} {cause : CloseCause}
      (hc : update env c = .ok (c', cause)) : Visit bufSize accepting c'

theorem wellFormed_startController (env : StartEnv) (bufSize : ℕ+) (accepting : Bool) :
    WellFormed (startController env bufSize accepting) := by
  refine ⟨List.nodup_singleton _, ?_, ?_, ?_, .inl rfl⟩
  · intro s hs
    obtain rfl := List.mem_singleton.mp hs
    exact Nat.one_pos
  · intro s hs
    obtain rfl := List.mem_singleton.mp hs
    refine ⟨(by decide : (-1 : ℤ) ≤ 0), (by decide : (0 : ℤ) ≤ 255), ?_, fun hneg => ?_⟩
    · constructor <;> simp [tunnelConnection]
    · exact absurd hneg (by simp [tunnelConnection])
  · intro id hid
    obtain ⟨i, hi, rfl⟩ := List.mem_map.mp hid
    rw [List.mem_range'_1, maxStackSize, maxConnections] at hi
    rw [Int.ofNat_eq_natCast]
    omega

variable {bufSize : ℕ+} {accepting : Bool}

theorem Reach.stepRun {c : Controller} (h : Reach bufSize accepting c) :
    ∃ env, StepRun (startController env bufSize accepting) c := by
  induction h with
  | start env => exact ⟨env, .refl⟩
  | update env _ hc ih =>
    obtain ⟨env₀, hrun⟩ := ih
    exact ⟨env₀, hrun.trans (update_run (hrun.wellFormed (wellFormed_startController ..)) hc)⟩

/-- **Every observed state is reached by steps.** -/
theorem Visit.stepRun {c : Controller} (h : Visit bufSize accepting c) :
    ∃ env, StepRun (startController env bufSize accepting) c := by
  cases h with
  | reach h => exact h.stepRun
  | entry h hc =>
    obtain ⟨env, hrun⟩ := h.stepRun
    exact ⟨env,
      hrun.trans (beforeTransfer_run (hrun.wellFormed (wellFormed_startController ..)) hc).1⟩
  | last h hc =>
    obtain ⟨env, hrun⟩ := h.stepRun
    exact ⟨env, hrun.trans (update_run (hrun.wellFormed (wellFormed_startController ..)) hc)⟩

theorem Visit.wellFormed {c : Controller} (h : Visit bufSize accepting c) : WellFormed c := by
  obtain ⟨env, hrun⟩ := h.stepRun
  exact hrun.wellFormed (wellFormed_startController ..)

/-- **What every step keeps holds in every observed state.** -/
theorem Visit.induction {P : Controller → Prop}
    (hstart : ∀ env, P (startController env bufSize accepting))
    (hstep : ∀ {c c'}, WellFormed c → Step c c' → P c → P c') {c : Controller}
    (h : Visit bufSize accepting c) : P c := by
  obtain ⟨env, hrun⟩ := h.stepRun
  have hboth : WellFormed c ∧ P c := by
    clear h
    induction hrun with
    | refl => exact ⟨wellFormed_startController .., hstart env⟩
    | tail _ hlast ih => exact ⟨hlast.wellFormed ih.1, hstep ih.1 hlast ih.2⟩
  exact hboth.2

/-! ### An induction over the phases of an update -/

section Phases

variable {P : Controller → Prop}
  (hpoll : ∀ {c : Controller} {env : PollEnv} {m : Manager} {cause : CloseCause},
    cmPoll env c.manager = .ok (m, cause) → P c → P { c with manager := m })
  (hsort : ∀ {c : Controller}, WellFormed c → P c → P c.sort)
  (hloop : ∀ {c : Controller} (ids : List ℕ) (conns : Conns), WellFormed c → P c →
    P (stateLoop ids conns c).2.1)
  (hpump : ∀ {c c' : Controller} {env : PumpEnv} {conns : Conns}, WellFormed c →
    ConnsOk conns c.slots → P c → pumpTransfer (onCommand env.connect) env conns c = .ok c' → P c')

include hpoll hsort hloop in
theorem beforeTransfer_keeps {env : PollEnv} {c c' : Controller} {next : CloseCause ⊕ Conns}
    (h : WellFormed c) (hP : P c) (hc : beforeTransfer env c = .ok (c', next)) : P c' := by
  obtain ⟨m, cause, hpolled, ⟨rfl, -⟩ | ⟨-, hchanges⟩⟩ := beforeTransfer_cases hc
  · exact hpoll hpolled hP
  · have hwf : WellFormed { c with manager := m } := Step.wellFormed (.poll hpolled) h
    have hsorted := hsort hwf (hpoll hpolled hP)
    rcases changes_cases hchanges with ⟨rfl, -⟩ | ⟨tunnel, -, rfl, -⟩
    · exact hsorted
    · unfold handleStateChanges
      split_ifs
      · exact hsorted
      · exact hloop _ _ hwf.sort hsorted

include hpoll hsort hloop hpump in
/-- **What the phases of an update keep, an update keeps.** -/
theorem update_keeps {env : Env} {c c' : Controller} {cause : CloseCause} (h : WellFormed c)
    (hP : P c) (hc : update env c = .ok (c', cause)) : P c' := by
  rcases update_cases hc with hbefore | ⟨c₁, conns, hbefore, htransfer, -⟩
  · exact beforeTransfer_keeps hpoll hsort hloop h hP hbefore
  · obtain ⟨hrun, hconns⟩ := beforeTransfer_run h hbefore
    exact hpump (hrun.wellFormed h) (hconns conns rfl)
      (beforeTransfer_keeps hpoll hsort hloop h hP hbefore) htransfer

include hpoll hsort hloop hpump in
theorem Reach.keeps (hstart : ∀ env, P (startController env bufSize accepting)) {c : Controller}
    (h : Reach bufSize accepting c) : P c := by
  induction h with
  | start env => exact hstart env
  | update env h hc ih =>
    exact update_keeps hpoll hsort hloop hpump (Visit.reach h).wellFormed ih hc

end Phases

/-- The state at the entry of the pump, if an update gets there. -/
def pumpEntry (env : PollEnv) (c : Controller) : Option (Controller × Conns) :=
  match beforeTransfer env c with
  | .ok (c', .inr conns) => some (c', conns)
  | _ => none

theorem beforeTransfer_of_pumpEntry {env : PollEnv} {c c' : Controller} {conns : Conns}
    (h : pumpEntry env c = some (c', conns)) : beforeTransfer env c = .ok (c', .inr conns) := by
  unfold pumpEntry at h
  split at h
  · rename_i hc
    obtain ⟨rfl, rfl⟩ := Prod.mk.inj (Option.some.inj h)
    exact hc
  · exact absurd h.symm (Option.some_ne_none _)

/-- An update that gets to the pump. -/
theorem update_of_pumpEntry {env : Env} {c c₁ c' : Controller} {conns : Conns}
    (h : pumpEntry env.poll c = some (c₁, conns))
    (hc : pumpTransfer (onCommand env.pump.connect) env.pump conns c₁ = .ok c') :
    update env c = .ok (c', .none) := by
  unfold update
  rw [beforeTransfer_of_pumpEntry h]
  simp only [bind, Except.bind, hc]

theorem eq_ok_of_toOption {α : Type} {x : Except Fault α} {a : α} (h : x.toOption = some a) :
    x = .ok a := by
  cases x with
  | error fault => exact absurd h.symm (Option.some_ne_none a)
  | ok b => exact congrArg _ (Option.some.inj h)

/-! ### Sample environments -/

/-- Allocations that succeed. -/
def sampleMalloc : Malloc := ⟨true, fun _ => 0, fun _ => 0⟩

/-- The system calls of a start. -/
def sampleStart : StartEnv := ⟨3, (4, 5), 6, fun _ => ⟨cmdNop, 0, 0⟩, fun _ => 0, fun _ => 0⟩

/-- The size of the buffers. -/
abbrev sampleBufSize : ℕ+ := 10240

/-- Buffers of one byte, and ten bytes for the tunnel. -/
abbrev tinyBufSize : ℕ+ := Nat.succPNat 0

/-- Connections to the service succeed. -/
def samplePump : PumpEnv := ⟨fun _ => 0, ⟨sampleMalloc, some 9, true⟩⟩

/-- Nothing happens on any socket. -/
def quietPoll : PollEnv :=
  ⟨some fun _ => {}, .quiet, false, ⟨.error .eagain, sampleMalloc⟩,
    ⟨fun _ => .error .eagain, fun _ => .error .eagain⟩⟩

/-- The tunnel delivers bytes. -/
def tunnelReads (bs : List UInt8) : PollEnv :=
  { quietPoll with
    ready := some fun ref => { pollin := ref == 0 }
    sockets :=
      { quietPoll.sockets with
        read := fun ref => if ref = 0 then .bytes bs else .error .eagain } }

/-- The tunnel takes up to `n` bytes, and delivers bytes, if there are some. -/
def tunnelTakes (n : ℕ) (bs : List UInt8) : PollEnv :=
  { quietPoll with
    ready := some fun ref => ⟨ref == 0 && !bs.isEmpty, ref == 0⟩
    sockets :=
      { read := fun ref => if ref = 0 then .bytes bs else .error .eagain
        write := fun ref => if ref = 0 then .taken n else .error .eagain } }

/-- Every connection but the tunnel delivers bytes. -/
def clientReads (bs : List UInt8) : PollEnv :=
  { quietPoll with
    ready := some fun ref => { pollin := ref != 0 }
    sockets :=
      { quietPoll.sockets with
        read := fun ref => if ref = 0 then .error .eagain else .bytes bs } }

/-- The tunnel delivers bytes, and the input of every other connection ends. -/
def clientEndsWith (bs : List UInt8) : PollEnv :=
  { quietPoll with
    ready := some fun _ => { pollin := true }
    sockets := { quietPoll.sockets with read := fun ref => .bytes (if ref = 0 then bs else []) } }

/-- The tunnel delivers bytes, if there are some, and every other connection refuses to take any. -/
def clientBreaks (bs : List UInt8) : PollEnv :=
  { quietPoll with
    ready := some fun ref => ⟨ref == 0 && !bs.isEmpty, ref != 0⟩
    sockets :=
      { read := fun ref => if ref = 0 then .bytes bs else .error .eagain
        write := fun ref => if ref = 0 then .error .eagain else .error .epipe } }

/-- The tunnel takes up to `n` bytes, and the input of every other connection ends. -/
def clientEndsInto (n : ℕ) : PollEnv :=
  { quietPoll with
    ready := some fun ref => ⟨ref != 0, ref == 0⟩
    sockets :=
      { read := fun ref => if ref = 0 then .error .eagain else .bytes []
        write := fun ref => if ref = 0 then .taken n else .error .eagain } }

/-- A client connects. -/
def clientComes (fd : ℕ) : PollEnv :=
  { quietPoll with client := true, accept := ⟨.ok fd, sampleMalloc⟩ }

/-- A connecting endpoint that has opened connection `1` and has received bytes of a frame for
it. -/
def serving (bufSize : ℕ+) (payload : List UInt8) : Option Controller :=
  updates [⟨tunnelReads [0x7E, 0, 1, 1, 0x7E], samplePump⟩,
    ⟨tunnelReads ([0x7E, 1] ++ payload), samplePump⟩] (startController sampleStart bufSize false)

end OsTasks.PortForwarding
