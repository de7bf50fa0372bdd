import OsTasks.Library.ReusedIds
import OsTasks.PortForwarding.Sending
import OsTasks.PortForwarding.TwoEndpoints

/-!
# The connections of two endpoints and the frames in flight

The system of two endpoints is seen as a `World`: its entries are the connections, its messages are
the frames in the channels and, behind them, the queued commands. The parts of an update are moves
of the world, as long as the update is orderly.

## Main definitions

* `Slot.entry`, `Packet.message`, `System.world`: the system as a world.
* `Permits`: what may be announced while data is on its way.

## Main results

* `settled_poll`, `settled_sort`, `settled_announceRun`, `beforeTransfer_announcements`: the part of
  an update before the pump.
-/

namespace OsTasks.PortForwarding

open ReusedIds

/-! ### The system as a world -/

/-- The connection of a slot. A connection that has just been accepted has the id `-1`. -/
def Slot.entry (s : Slot) : Entry where
  id := if 0 ≤ s.conn.id then some s.conn.id.toNat else none
  tag := s.inc
  unannounced := s.conn.state.new
  closed := s.conn.state.delete

def commandKind (cmd : UInt8) : Kind :=
  if cmd = cmdNew then .opens else if cmd = cmdClose then .closes else .other

def FrameStart.kind : FrameStart → Kind
  | .command cmd _ => commandKind cmd
  | .data _ => .data

def Packet.message (p : Packet) : Message := ⟨p.start.kind, p.start.id, p.tag⟩

/-- The frames in a channel, and behind them the queued commands. -/
def inFlight (channel : List Packet) (c : Controller) : List Message :=
  channel.map Packet.message ++ c.pump.cmdQueue.contents.map fun command => command.packet.message

/-- The system, seen by `a`. -/
def System.world (s : System) : World where
  mine := s.a.slots.map Slot.entry
  theirs := s.b.slots.map Slot.entry
  out := inFlight s.toB s.a
  into := inFlight s.toA s.b

/-! ### Entries and messages -/

theorem entry_id {s : Slot} {i : ℕ} : s.entry.id = some i ↔ s.conn.id = i := by
  unfold Slot.entry
  dsimp only
  split_ifs
  · rw [Option.some.injEq]
    omega
  · simp only [false_iff]
    omega

theorem entry_id_none {s : Slot} : s.entry.id = none ↔ s.conn.id < 0 := by
  simp [Slot.entry]

theorem BufferStep.entry {s s' : Slot} (h : BufferStep s s') : s'.entry = s.entry := by
  unfold Slot.entry
  rw [h.id, h.inc, h.state]

theorem SlotsMoved.entries {id : ℤ} {l l' : List Slot} (h : SlotsMoved id l l') :
    l'.map Slot.entry = l.map Slot.entry := by
  obtain ⟨g, rfl, hg, -⟩ := h
  rw [List.map_map]
  exact List.map_congr_left fun s hs => (hg s hs).entry

theorem SlotRun.entry {s s' : Slot} (h : SlotRun s s') : s'.entry = s.entry := by
  have hkeeps := h.keeps
  unfold Slot.entry
  rw [hkeeps.id, hkeeps.inc, hkeeps.new, hkeeps.delete]

theorem lists_entries {slots : List Slot} {i : ℕ} :
    Tracks (slots.map Slot.entry) i ↔
      ∃ s ∈ slots, s.conn.id = i ∧ s.conn.state.delete = false := by
  simp only [Tracks, List.mem_map, exists_exists_and_eq_and, entry_id]
  rfl

theorem toNat_toByte {i : ℤ} (h : 0 ≤ i) (h' : i ≤ 255) : (toByte i).toNat = i.toNat := by
  unfold toByte
  rw [UInt8.toNat_ofNat']
  omega

theorem commandKind_ne_data (cmd : UInt8) : commandKind cmd ≠ .data := by
  unfold commandKind
  split_ifs <;> exact fun h => nomatch h

/-- Data is in the channel. -/
theorem exists_of_data {channel : List Packet} {c : Controller} {m : Message}
    (hm : m ∈ inFlight channel c) (hkind : m.kind = .data) :
    ∃ p ∈ channel, p.start.dataId = some m.id := by
  rcases List.mem_append.mp hm with hm | hm <;> obtain ⟨x, hx, rfl⟩ := List.mem_map.mp hm
  · refine ⟨x, hx, ?_⟩
    revert hkind
    unfold Packet.message
    cases x.start with
    | command cmd arg => exact fun hkind => absurd hkind (commandKind_ne_data cmd)
    | data id => exact fun _ => rfl
  · exact absurd hkind (commandKind_ne_data x.cmd)

/-- A command that is queued is behind everything in flight. -/
theorem inFlight_enqueue {c c' : Controller} {command : Command}
    (hq : cmdqEnqueue c.pump.cmdQueue command = some c'.pump.cmdQueue) (channel : List Packet) :
    inFlight channel c' = inFlight channel c ++ [command.packet.message] := by
  unfold inFlight
  rw [contents_cmdqEnqueue hq, List.map_append, List.append_assoc]
  rfl

variable {T : ℕ → ℕ} {s : System}

theorem world_mine {l₁ l₂ : List Slot} {t : Slot} (h : s.a.slots = l₁ ++ t :: l₂) :
    s.world.mine = l₁.map Slot.entry ++ t.entry :: l₂.map Slot.entry := by
  change s.a.slots.map _ = _
  rw [h, List.map_append, List.map_cons]

/-- What the world has of `a`. -/
theorem world_congr {c c' : Controller} {channel channel' : List Packet}
    (hentries : c'.slots.map Slot.entry = c.slots.map Slot.entry)
    (hout : inFlight channel' c' = inFlight channel c) :
    { s with a := c', toB := channel' }.world = { s with a := c, toB := channel }.world := by
  unfold System.world
  dsimp only
  rw [hentries, hout]

/-! ### Polling -/

/-- **Polling** forgets the closed connections, and may list a client without an id. -/
theorem settled_poll {env : PollEnv} {m : Manager} (h : Safe T s.world)
    (hpoll : cmPoll env s.a.manager = .ok (m, .none)) :
    Settled T { s with a := { s.a with manager := m } }.world := by
  obtain ⟨f, new, hslots, hnone, hrun, hnew⟩ := cmPoll_effect hpoll
  have hentries : ((s.a.slots.filterMap f).map Slot.entry).Sublist (s.a.slots.map Slot.entry) :=
    map_filterMap_sublist fun t t' hft => (hrun t t' hft).entry
  refine h.sweep ⟨⟨(s.a.slots.filterMap f).map Slot.entry, new.map Slot.entry, ?_, hentries, ?_, ?_,
    ?_⟩, rfl, rfl, rfl⟩
  · change m.slots.map _ = _
    rw [hslots, List.map_append]
    rfl
  · intro e he
    obtain ⟨t, ht, rfl⟩ := List.mem_map.mp he
    exact delete_of_cmPoll hpoll t (hslots ▸ List.mem_append_left _ ht)
  · intro e he hopen
    obtain ⟨t, ht, rfl⟩ := List.mem_map.mp he
    obtain ⟨t', hft⟩ : ∃ t', f t = some t' := by
      rw [← Option.ne_none_iff_exists', ne_eq, hnone]
      exact Bool.eq_false_iff.mp hopen
    rw [← (hrun t t' hft).entry]
    exact List.mem_map_of_mem (List.mem_filterMap.mpr ⟨t, ht, hft⟩)
  · intro e he
    obtain ⟨t, ht, rfl⟩ := List.mem_map.mp he
    rw [entry_id_none]
    rcases hnew with ⟨rfl, -⟩ | ⟨u, rfl, hfresh, -⟩
    · exact absurd ht List.not_mem_nil
    · rw [List.mem_singleton.mp ht, hfresh.id]
      decide

/-! ### Giving out ids -/

theorem Assigns.length_le {stack stack' : List ℤ} {slots slots' : List Slot}
    (h : Assigns stack slots stack' slots') : stack'.length ≤ stack.length := by
  induction h with
  | nil => exact Nat.le_refl _
  | keep _ _ ih => exact ih
  | wait _ _ ih => exact ih
  | take _ _ ih => exact ih.trans (Nat.le_succ _)

theorem entry_of_id {s : Slot} {id : ℤ} (hid : 0 ≤ id) :
    Slot.entry { s with conn := { s.conn with id := id } } = { s.entry with id := some id.toNat } :=
  congrArg (fun i => ({ s.entry with id := i } : Entry)) (if_pos hid)

/-- **Sorting** names the connections that get an id. The induction is over the connections that
are still to be sorted. -/
theorem settled_assigns {stack stack' : List ℤ} {slots slots' : List Slot} {fs : List Entry}
    {out into : List Message} (hassigns : Assigns stack slots stack' slots')
    (hpos : ∀ i ∈ stack, 0 ≤ i) (done : List Slot)
    (hnd : (stack.take (stack.length - stack'.length)).Nodup)
    (hunused : ∀ i ∈ stack.take (stack.length - stack'.length),
      World.Unused ⟨(done ++ slots).map Slot.entry, fs, out, into⟩ i.toNat)
    (h : Settled T ⟨(done ++ slots).map Slot.entry, fs, out, into⟩) :
    ∃ T', Settled T' ⟨(done ++ slots').map Slot.entry, fs, out, into⟩ := by
  induction hassigns generalizing done T with
  | nil => exact ⟨T, h⟩
  | @keep _ _ slots slots' s _ _ ih =>
    rw [List.append_cons] at h hunused ⊢
    exact ih hpos (done ++ [s]) hnd hunused h
  | @wait _ slots slots' s _ _ ih =>
    rw [List.append_cons] at h hunused ⊢
    exact ih hpos (done ++ [s]) hnd hunused h
  | @take stack stack' slots slots' s id hid hrest ih =>
    have hlen : (id :: stack).length - stack'.length = stack.length - stack'.length + 1 :=
      Nat.succ_sub hrest.length_le
    rw [hlen, List.take_succ_cons] at hnd hunused
    obtain ⟨hpos₀, hpos⟩ := List.forall_mem_cons.mp hpos
    obtain ⟨hunused₀, hunused⟩ := List.forall_mem_cons.mp hunused
    obtain ⟨hnot, hnd⟩ := List.nodup_cons.mp hnd
    have hmine : (done ++ s :: slots).map Slot.entry =
        done.map Slot.entry ++ s.entry :: slots.map Slot.entry := by
      rw [List.map_append, List.map_cons]
    let s' : Slot := { s with conn := { s.conn with id := id } }
    have hmine' : (done ++ [s'] ++ slots).map Slot.entry =
        done.map Slot.entry ++ { s.entry with id := some id.toNat } :: slots.map Slot.entry := by
      rw [← List.append_cons, List.map_append, List.map_cons, entry_of_id hpos₀]
    have hnamed : Settled (Function.update T id.toNat s.inc)
        ⟨(done ++ [s'] ++ slots).map Slot.entry, fs, out, into⟩ := by
      rw [hmine']
      exact h.name hmine (entry_id_none.mpr hid) hunused₀
    rw [List.append_cons]
    refine ih hpos (done ++ [s']) hnd (fun i hi => ?_) hnamed
    have hne : id.toNat ≠ i.toNat := by
      have hi₀ := hpos i (List.mem_of_mem_take hi)
      have : id ≠ i := fun he => hnot (he ▸ hi)
      omega
    rw [hmine']
    exact (hunused i hi).name hmine hne

/-- What is unused in the system is unused in the world, once the closed connections of `a` are
gone. -/
theorem System.Unused.world {i : ℤ} (h : s.Unused i) (hi : 0 ≤ i)
    (hdel : ∀ t ∈ s.a.slots, t.conn.state.delete = false) : s.world.Unused i.toNat where
  mine e he hid := by
    obtain ⟨t, ht, rfl⟩ := List.mem_map.mp he
    have hidt := entry_id.mp hid
    exact h.a ⟨t, ht, by omega, hdel t ht⟩
  theirs hl := by
    obtain ⟨t, ht, hid, hopen⟩ := lists_entries.mp hl
    exact h.b ⟨t, ht, by omega, hopen⟩
  out m hm hid := by
    rcases List.mem_append.mp hm with hm | hm <;> obtain ⟨x, hx, rfl⟩ := List.mem_map.mp hm
    · exact h.toB x hx (by rw [show x.start.id = i.toNat from hid]; omega)
    · exact h.queueA x hx (by rw [show x.arg.toNat = i.toNat from hid]; omega)
  into m hm hid := by
    rcases List.mem_append.mp hm with hm | hm <;> obtain ⟨x, hx, rfl⟩ := List.mem_map.mp hm
    · exact h.toA x hx (by rw [show x.start.id = i.toNat from hid]; omega)
    · exact h.queueB x hx (by rw [show x.arg.toNat = i.toNat from hid]; omega)

/-- **Sorting** keeps the invariant, when it gives out different ids that are not in use. -/
theorem settled_sort (h : Settled T s.world) (hwf : WellFormed s.a)
    (hdel : ∀ t ∈ s.a.slots, t.conn.state.delete = false)
    (hnd : (s.a.freeIds.take (s.a.freeIds.length - s.a.sort.freeIds.length)).Nodup)
    (hunused : ∀ i ∈ s.a.freeIds.take (s.a.freeIds.length - s.a.sort.freeIds.length), s.Unused i) :
    ∃ T', Settled T' { s with a := s.a.sort }.world :=
  settled_assigns hwf.sort_assigns (fun i hi => (hwf.freeIds i hi).1) [] hnd
    (fun i hi => (hunused i hi).world (hwf.freeIds i (List.mem_of_mem_take hi)).1 hdel) h

/-! ### Announcing -/

/-- The event queues no `CMD_CLOSE` for an id that data is on its way for. -/
def Permits (inbox : List Packet) (e : PumpEvent) : Prop :=
  ∀ i ∈ e.closes, ∀ p ∈ inbox, p.start.dataId ≠ some i

/-- One announcement keeps the invariant, if it is permitted. -/
theorem settled_announceStep {c : Controller} (hwf : WellFormed s.a) (hstep : AnnounceStep s.a c) :
    ∃ t cmd, c.trace = .queued t cmd :: s.a.trace ∧ c.pump.sendingTo = s.a.pump.sendingTo ∧
      (Permits s.toA (.queued t cmd) → Settled T s.world → Settled T { s with a := c }.world) := by
  cases hstep with
  | @announce t cmd conn q ht hid hdel hann hq =>
    refine ⟨t, cmd, rfl, rfl, fun hpermits h => ?_⟩
    obtain ⟨l₁, l₂, hl, hmod⟩ := modifyConn_eq_append hwf.nodup ht fun _ => conn
    have hle := (hwf.slotOk t ht).id_le
    have hmine := world_mine hl
    have hmine' : (s.a.announce t cmd conn q).slots.map Slot.entry =
        l₁.map Slot.entry ++ Slot.entry { t with conn := conn } :: l₂.map Slot.entry := by
      change (modifyConn s.a.slots t.ref fun _ => conn).map _ = _
      rw [hmod, List.map_append, List.map_cons]
    have hout : inFlight s.toB (s.a.announce t cmd conn q) =
        s.world.out ++ [⟨commandKind cmd, t.conn.id.toNat, t.entry.tag⟩] := by
      rw [← toNat_toByte (by omega) hle]
      exact inFlight_enqueue (show cmdqEnqueue _ ⟨cmd, toByte t.conn.id, t.inc⟩ = some _ from hq)
        s.toB
    have hidt : t.entry.id = some t.conn.id.toNat := entry_id.mpr (by omega)
    have hmem : t.entry ∈ s.world.mine := List.mem_map_of_mem ht
    unfold System.world
    dsimp only
    rw [hmine', hout]
    cases hann with
    | new hnew => exact h.announce hmine hidt hdel hnew
    | close hnew hclose =>
      refine h.close hmine hidt hdel fun m hm hkind hid => ?_
      obtain ⟨p, hp, hdata⟩ := exists_of_data hm hkind
      exact hpermits _ rfl p hp (hdata.trans (congrArg some hid))
    | closeIn hnew hin hclose =>
      change Settled T ⟨l₁.map Slot.entry ++ t.entry :: l₂.map Slot.entry, _, _, _⟩
      rw [← hmine]
      exact h.tell hmem hidt hdel
    | closeOut hnew hin hclose =>
      change Settled T ⟨l₁.map Slot.entry ++ t.entry :: l₂.map Slot.entry, _, _, _⟩
      rw [← hmine]
      exact h.tell hmem hidt hdel

/-- The event queues a command of `handle_state_changes`. -/
def PumpEvent.Queues (e : PumpEvent) : Prop := ∃ t cmd, e = .queued t cmd

/-- **Announcements** keep the invariant, if they are permitted. -/
theorem settled_announceRun {c : Controller} (h : Settled T s.world) (hwf : WellFormed s.a)
    (hrun : AnnounceRun s.a c) :
    ∃ events, c.trace = events ++ s.a.trace ∧ c.pump.sendingTo = s.a.pump.sendingTo ∧
      (∀ e ∈ events, e.Queues) ∧
      ((∀ e ∈ events, Permits s.toA e) → Settled T { s with a := c }.world) := by
  induction hrun with
  | refl => exact ⟨[], rfl, rfl, fun _ he => absurd he List.not_mem_nil, fun _ => h⟩
  | @tail c c' hrun hlast ih =>
    obtain ⟨events, htrace, hsend, hqueues, hsettled⟩ := ih
    obtain ⟨t, cmd, htrace', hsend', hnext⟩ :=
      settled_announceStep (T := T) (s := { s with a := c }) (AnnounceRun.wellFormed hrun hwf) hlast
    refine ⟨.queued t cmd :: events, ?_, hsend'.trans hsend, ?_, fun hpermits => ?_⟩
    · rw [htrace', htrace]
      rfl
    · exact List.forall_mem_cons.mpr ⟨⟨t, cmd, rfl⟩, hqueues⟩
    · obtain ⟨hlastPermits, hpermits⟩ := List.forall_mem_cons.mp hpermits
      exact hnext hlastPermits (hsettled hpermits)

/-! ### Before the pump -/

/-- What is unused before polling is unused afterwards. -/
theorem System.Unused.poll {env : PollEnv} {m : Manager} {i : ℤ} (h : s.Unused i) (hi : 0 ≤ i)
    (hpoll : cmPoll env s.a.manager = .ok (m, .none)) :
    ({ s with a := { s.a with manager := m } } : System).Unused i where
  a := by
    rintro ⟨t, ht, hid, hopen⟩
    rcases mem_slots_poll hpoll ht with ⟨u, hu, hdel, hrun⟩ | ⟨hfresh, -⟩
    · exact h.a ⟨u, hu, hrun.keeps.id.symm.trans hid, hdel⟩
    · rw [hfresh.id] at hid
      omega
  b := h.b
  queueA := h.queueA
  queueB := h.queueB
  toA := h.toA
  toB := h.toB

/-- What the part of an update before the pump has done to `a`. -/
structure Announcements (s : System) (c : Controller) (events : List PumpEvent) : Prop where
  trace : c.trace = events ++ s.a.trace
  sendingTo : c.pump.sendingTo = s.a.pump.sendingTo
  queues : ∀ e ∈ events, e.Queues
  settled : (∀ e ∈ events, Permits s.toA e) → ∃ T, Settled T { s with a := c }.world

/-- **The part of an update before the pump** keeps the invariant, if it gives out different ids
that are not in use, and what it announces is permitted. -/
theorem beforeTransfer_announcements {env : PollEnv} {c : Controller} {next : CloseCause ⊕ Conns}
    (h : Safe T s.world) (hwf : WellFormed s.a) (hnd : (given env s.a).Nodup)
    (hunused : ∀ i ∈ given env s.a, s.Unused i)
    (hc : beforeTransfer env s.a = .ok (c, next)) :
    (∃ cause, cause ≠ .none ∧ next = .inl cause) ∨ ∃ events, Announcements s c events := by
  obtain ⟨m, cause, hpoll, hnext⟩ := beforeTransfer_cases hc
  by_cases hcause : cause = .none
  · subst hcause
    have hpolled := settled_poll h hpoll
    refine .inr ?_
    rcases hnext with ⟨rfl, -⟩ | ⟨-, hchanges⟩
    · exact ⟨[], rfl, rfl, fun _ he => absurd he List.not_mem_nil, fun _ => ⟨T, hpolled⟩⟩
    · have hwf₁ := hwf.poll hpoll
      have hdel := delete_of_cmPoll hpoll
      unfold given at hnd hunused
      simp only [hpoll] at hnd hunused
      obtain ⟨T', hsorted⟩ := settled_sort hpolled hwf₁ hdel hnd fun i hi =>
        (hunused i hi).poll (hwf.freeIds i (List.mem_of_mem_take hi)).1 hpoll
      obtain ⟨events, htrace, hsend, hqueues, hsettled⟩ := settled_announceRun hsorted hwf₁.sort
        (changes_run hwf₁.sort (hwf₁.connsOk_sort (delete_sort hwf₁ hdel)) hchanges).1
      exact ⟨events, htrace, hsend, hqueues, fun hpermits => ⟨T', hsettled hpermits⟩⟩
  · rcases hnext with ⟨-, rfl⟩ | ⟨rfl, -⟩
    · exact .inl ⟨cause, hcause, rfl⟩
    · exact absurd rfl hcause

end OsTasks.PortForwarding
