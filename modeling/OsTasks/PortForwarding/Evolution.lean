import OsTasks.PortForwarding.Updates

/-!
# How connections and the trace evolve

Two facts about every step that hold without any assumption on the peer or on the sockets: a
connection only goes forward (its id is given once, `CS_NEW` is only cleared, `CS_DELETE` is only
set), and the trace only grows, by events about connections that were there.

## Main definitions

* `Evolves`: how one connection may change in a step.
* `Fresh`: a connection that was not there before.
* `StepEvent`: the events a step can add to the trace.

## Main results

* `Step.evolves`, `Step.trace`: every step is of this kind.
-/

namespace OsTasks.PortForwarding

/-! ### Connections -/

/-- How a connection may change in a step after which `events` have happened. -/
structure Evolves (events : List PumpEvent) (s s' : Slot) : Prop where
  ref : s'.ref = s.ref
  inc : s'.inc = s.inc
  id : 0 ≤ s.conn.id → s'.conn.id = s.conn.id
  new : s'.conn.state.new = s.conn.state.new ∨
    s'.conn.state.new = false ∧ .queued s cmdNew ∈ events
  delete : s.conn.state.delete = true → s'.conn.state.delete = true
  inDelete : s.conn.inState.delete = true → s'.conn.inState.delete = true
  outDelete : s.conn.outState.delete = true → s'.conn.outState.delete = true

variable {events : List PumpEvent}

theorem Evolves.refl (s : Slot) : Evolves events s s :=
  ⟨rfl, rfl, fun _ => rfl, .inl rfl, fun h => h, fun h => h, fun h => h⟩

theorem SlotKeeps.evolves {s s' : Slot} (h : SlotKeeps s s') : Evolves events s s' :=
  ⟨h.ref, h.inc, fun _ => h.id, .inl h.new, h.delete.trans, h.inDelete.trans, h.outDelete.trans⟩

theorem BufferStep.evolves {s s' : Slot} (h : BufferStep s s') : Evolves events s s' := by
  refine ⟨h.ref, h.inc, fun _ => h.id, .inl ?_, ?_, ?_, ?_⟩ <;>
    simp only [h.state, h.inState, h.outState, imp_self]

theorem Assigned.evolves {stack : List ℤ} {s s' : Slot} (h : Assigned stack s s') :
    Evolves events s s' := by
  obtain rfl | ⟨hneg, id, -, rfl⟩ := h
  · exact .refl s'
  · exact ⟨rfl, rfl, fun hid => absurd hid (by omega), .inl rfl, fun h => h, fun h => h, fun h => h⟩

/-- A change of the connection of one slot in the list. -/
theorem evolves_modifySlot {slots : List Slot} (hnd : (slots.map Slot.ref).Nodup) {s : Slot}
    (hs : s ∈ slots) {f : Connection → Connection}
    (hf : Evolves events s { s with conn := f s.conn }) {t : Slot} (ht : t ∈ slots) :
    Evolves events t (modifySlot s.ref f t) :=
  modifySlot_rel hnd hs (P := Evolves events) hf (fun t _ _ => .refl t) ht

theorem Announces.evolves {s : Slot} {cmd : UInt8} {conn : Connection}
    (h : Announces s.conn cmd conn) (htrace : .queued s cmd ∈ events) :
    Evolves events s { s with conn := conn } := by
  cases h with
  | new =>
    exact ⟨rfl, rfl, fun _ => rfl, .inr ⟨rfl, htrace⟩, fun h => h, fun h => h, fun h => h⟩
  | close => exact ⟨rfl, rfl, fun _ => rfl, .inl rfl, fun _ => rfl, fun h => h, fun h => h⟩
  | closeIn => exact ⟨rfl, rfl, fun _ => rfl, .inl rfl, fun h => h, fun _ => rfl, fun h => h⟩
  | closeOut => exact ⟨rfl, rfl, fun _ => rfl, .inl rfl, fun h => h, fun h => h, fun _ => rfl⟩

theorem evolves_commandChange (s : Slot) (cmd : UInt8) :
    Evolves events s { s with conn := commandChange cmd s.conn } := by
  refine ⟨rfl, rfl, fun _ => id_commandChange cmd s.conn, .inl ?_, ?_, ?_, ?_⟩ <;>
    · dsimp only
      unfold commandChange
      split_ifs <;> simp

/-- A connection that has just been accepted, or just been opened to the service. -/
def Fresh (m : Manager) (s : Slot) : Prop :=
  FreshClient m s ∨ ∃ id : ℕ, id ≤ 255 ∧ FreshServer m id 0 s

theorem Fresh.ref {m : Manager} {s : Slot} (h : Fresh m s) : s.ref = m.nextRef := by
  rcases h with h | ⟨_, -, h⟩ <;> exact h.ref

/-- **Connections only go forward.** A connection in the list after a step was there before it, or
is fresh. -/
theorem Step.evolves {c c' : Controller} (hwf : WellFormed c) (hstep : Step c c') :
    c.manager.nextRef ≤ c'.manager.nextRef ∧
      ∀ s' ∈ c'.slots, (∃ s ∈ c.slots, Evolves c'.trace s s') ∨
        Fresh c.manager s' ∧ c'.manager.nextRef = c.manager.nextRef + 1 := by
  -- a step that changes the slots in place
  have hmap : ∀ (g : Slot → Slot), c'.slots = c.slots.map g →
      (∀ s ∈ c.slots, Evolves c'.trace s (g s)) →
      ∀ s' ∈ c'.slots, (∃ s ∈ c.slots, Evolves c'.trace s s') ∨
        Fresh c.manager s' ∧ c'.manager.nextRef = c.manager.nextRef + 1 := by
    intro g hslots hg s' hs'
    rw [hslots, List.mem_map] at hs'
    obtain ⟨s, hs, rfl⟩ := hs'
    exact .inl ⟨s, hs, hg s hs⟩
  cases hstep with
  | poll hpoll =>
    refine ⟨nextRef_poll hpoll, fun s' hs' => ?_⟩
    rcases mem_slots_poll hpoll hs' with ⟨s, hs, -, hrun⟩ | ⟨hfresh, hnext⟩
    · exact .inl ⟨s, hs, hrun.keeps.evolves⟩
    · exact .inr ⟨.inl hfresh, hnext⟩
  | sort =>
    refine ⟨Nat.le_refl _, fun s' hs' => ?_⟩
    obtain ⟨s, hs, hass⟩ := hwf.mem_slots_sort hs'
    exact .inl ⟨s, hs, hass.evolves⟩
  | announce hs _ _ hann =>
    exact ⟨Nat.le_refl _,
      hmap _ (slots_announce ..) fun t ht =>
        evolves_modifySlot hwf.nodup hs (hann.evolves List.mem_cons_self) ht⟩
  | deliver env tunnel hid hlast =>
    obtain ⟨g, hslots, hg, -⟩ := slotsMoved_deliver hwf.nodup env _ tunnel
      (mem_of_lastWithId hlast).1
    exact ⟨Nat.le_refl _, hmap g hslots fun s hs => (hg s hs).evolves⟩
  | handle env cmd arg =>
    obtain ⟨opened, heff⟩ := onCommand_effect env c ⟨cmd, arg, 0⟩
    rcases heff.slots with ⟨s, htarget, -, hslots, hnext, -⟩ |
      ⟨-, -, ⟨-, hslots, hnext⟩ | ⟨-, -, s, hslots, hfresh, hnext⟩⟩
    · exact ⟨hnext.ge, hmap _ hslots fun t ht =>
        evolves_modifySlot hwf.nodup (commandTarget_eq_some htarget).1
          (evolves_commandChange s cmd) ht⟩
    · refine ⟨hnext, fun t ht => .inl ⟨t, ?_, .refl t⟩⟩
      rwa [hslots] at ht
    · refine ⟨by omega, fun t ht => ?_⟩
      rw [hslots, List.mem_append, List.mem_singleton] at ht
      rcases ht with ht | rfl
      · exact .inl ⟨t, ht, .refl t⟩
      · have hbyte := arg.toNat_lt
        exact .inr ⟨.inr ⟨arg.toNat, by omega, hfresh⟩, hnext⟩
  | quiet hq =>
    obtain ⟨g, hslots, hg, -⟩ := hq.moved
    exact ⟨hq.nextRef.ge, hmap g hslots fun s hs => (hg s hs).evolves⟩

/-! ### The trace -/

/-- The events a step can add to the trace. -/
inductive StepEvent (c : Controller) : PumpEvent → Prop
  | queued {s : Slot} {cmd : UInt8} {conn : Connection} (hs : s ∈ c.slots) (hid : 1 ≤ s.conn.id)
      (hdel : s.conn.state.delete = false) (hann : Announces s.conn cmd conn) :
      StepEvent c (.queued s cmd)
  | delivered (id : ℕ) (bytes : List UInt8) {s : Slot} (hs : s ∈ c.slots)
      (hdel : s.conn.state.delete = false) : StepEvent c (.delivered id 0 s bytes)
  | handled (cmd arg : UInt8) (opened : Bool) :
      StepEvent c (.handled ⟨cmd, arg, 0⟩ (commandTarget c ⟨cmd, arg, 0⟩) c.freeIds opened)
  | quiet {e : PumpEvent} (he : QuietEvent c.slots e) : StepEvent c e

/-- **The trace only grows.** -/
theorem Step.trace {c c' : Controller} (hstep : Step c c') :
    c'.trace = c.trace ∨ ∃ e, StepEvent c e ∧ c'.trace = e :: c.trace := by
  cases hstep with
  | poll => exact .inl rfl
  | sort => exact .inl rfl
  | announce hs hid hdel hann => exact .inr ⟨_, .queued hs hid hdel hann, rfl⟩
  | deliver env tunnel hid hlast hdel =>
    exact .inr ⟨_, .delivered _ _ (mem_of_lastWithId hlast).1 hdel, rfl⟩
  | handle env cmd arg =>
    obtain ⟨opened, heff⟩ := onCommand_effect env c ⟨cmd, arg, 0⟩
    exact .inr ⟨_, .handled cmd arg opened, heff.trace⟩
  | quiet hq => exact hq.trace.imp id fun ⟨e, he, htrace⟩ => ⟨e, .quiet he, htrace⟩

theorem Step.trace_subset {c c' : Controller} (hstep : Step c c') : c.trace ⊆ c'.trace := by
  rcases hstep.trace with h | ⟨e, -, h⟩ <;> rw [h]
  · exact List.Subset.refl _
  · exact List.subset_cons_self _ _

theorem StepRun.trace_subset {c c' : Controller} (hrun : StepRun c c') : c.trace ⊆ c'.trace := by
  induction hrun with
  | refl => exact List.Subset.refl _
  | tail _ hlast ih => exact List.Subset.trans ih hlast.trace_subset

end OsTasks.PortForwarding
