import OsTasks.PortForwarding.Steps

/-!
# The invariant of an endpoint

Every step of an endpoint keeps the addresses of its connections different, the ids in range and
the status bits of every connection coherent. The facts about the single operations that this rests
on are here too: who is in the list after polling, sorting, delivering and handling a command.

## Main definitions

* `SlotOk`, `WellFormed`: the invariant.
* `FreshServer`: the slot of a connection that has just been opened to the service.
* `CommandEffect`: what a command of the peer does.

## Main results

* `mem_slots_poll`, `mem_slots_sort`, `slotsMoved_deliver`, `onCommand_effect`, `cmConnect_slots`:
  the single operations.
* `Step.wellFormed`: every step keeps the invariant.
-/

namespace OsTasks.PortForwarding

/-- What holds of every slot: the id is in range, the status bits are coherent, and a connection
without an id is not told to stop sending. -/
structure SlotOk (s : Slot) : Prop where
  id_ge : -1 ≤ s.conn.id
  id_le : s.conn.id ≤ 255
  connOk : ConnOk s.conn
  waiting : s.conn.id < 0 → s.conn.state.delete = false ∧ s.conn.outState.delete = false

/-- What holds of an endpoint at any time: the addresses of its connections are different and have
been allocated, every slot is in order, and ids are in range. -/
structure WellFormed (c : Controller) : Prop where
  nodup : (c.slots.map Slot.ref).Nodup
  allocated : ∀ s ∈ c.slots, s.ref < c.manager.nextRef
  slotOk : ∀ s ∈ c.slots, SlotOk s
  freeIds : ∀ id ∈ c.freeIds, 0 ≤ id ∧ id ≤ 255
  sendingTo : c.pump.sendingTo = -1 ∨ 1 ≤ c.pump.sendingTo ∧ c.pump.sendingTo ≤ 255

/-- The invariant when slots are changed in place. -/
theorem WellFormed.map {c c' : Controller} (h : WellFormed c) {g : Slot → Slot}
    (hslots : c'.slots = c.slots.map g) (href : ∀ s ∈ c.slots, (g s).ref = s.ref)
    (hok : ∀ s ∈ c.slots, SlotOk (g s)) (hnext : c'.manager.nextRef = c.manager.nextRef)
    (hfree : ∀ id ∈ c'.freeIds, 0 ≤ id ∧ id ≤ 255)
    (hsend : c'.pump.sendingTo = -1 ∨ 1 ≤ c'.pump.sendingTo ∧ c'.pump.sendingTo ≤ 255) :
    WellFormed c' := by
  refine ⟨?_, ?_, ?_, hfree, hsend⟩
  · have hrefs : c'.slots.map Slot.ref = c.slots.map Slot.ref := by
      rw [hslots, List.map_map]
      exact List.map_congr_left href
    rw [hrefs]
    exact h.nodup
  · rw [hslots, hnext]
    intro s' hs'
    obtain ⟨s, hs, rfl⟩ := List.mem_map.mp hs'
    exact (href s hs).trans_lt (h.allocated s hs)
  · rw [hslots]
    intro s' hs'
    obtain ⟨s, hs, rfl⟩ := List.mem_map.mp hs'
    exact hok s hs

/-- The invariant when a new connection comes behind the others. -/
theorem nodup_append_fresh {slots : List Slot} {next : ℕ} (hnd : (slots.map Slot.ref).Nodup)
    (hall : ∀ s ∈ slots, s.ref < next) {s : Slot} (href : s.ref = next) :
    ((slots ++ [s]).map Slot.ref).Nodup := by
  rw [List.map_append, List.map_cons, List.map_nil, List.nodup_append]
  refine ⟨hnd, List.nodup_singleton _, fun a ha b hb => ?_⟩
  obtain ⟨t, ht, rfl⟩ := List.mem_map.mp ha
  have := hall t ht
  rw [List.mem_singleton] at hb
  omega

/-! ### Polling -/

theorem SlotOk.slotOp {s s' : Slot} (hop : SlotOp s s') (h : SlotOk s) : SlotOk s' := by
  have hkeep := hop.keeps
  constructor
  · rw [hkeep.id]
    exact h.id_ge
  · rw [hkeep.id]
    exact h.id_le
  · exact h.connOk.slotOp hop
  · rw [hkeep.id, hkeep.delete, hkeep.outDelete]
    exact h.waiting

theorem SlotOk.slotRun {s s' : Slot} (hrun : SlotRun s s') (h : SlotOk s) : SlotOk s' :=
  hrun.keep SlotOk.slotOp h

theorem FreshClient.slotOk {m : Manager} {s : Slot} (h : FreshClient m s) : SlotOk s where
  id_ge := by rw [h.id]
  id_le := by rw [h.id]; decide
  connOk := by
    constructor <;> simp [h.state, h.inState, h.outState]
  waiting _ := by simp [h.state, h.outState]

/-- A connection in the list after polling was there before and not marked for deletion, or has
just been accepted. -/
theorem mem_slots_poll {env : PollEnv} {m m' : Manager} {cause : CloseCause}
    (h : cmPoll env m = .ok (m', cause)) {s' : Slot} (hs' : s' ∈ m'.slots) :
    (∃ s ∈ m.slots, s.conn.state.delete = false ∧ SlotRun s s') ∨
      FreshClient m s' ∧ m'.nextRef = m.nextRef + 1 := by
  obtain ⟨f, new, hslots, hnone, hrun, hnew⟩ := cmPoll_effect h
  rw [hslots, List.mem_append, List.mem_filterMap] at hs'
  rcases hs' with ⟨s, hs, hfs⟩ | hmem
  · refine .inl ⟨s, hs, ?_, hrun s s' hfs⟩
    by_contra hdel
    rw [Bool.not_eq_false, ← hnone, hfs] at hdel
    exact Option.some_ne_none s' hdel
  · rcases hnew with ⟨rfl, -⟩ | ⟨s, rfl, hfresh, hnext⟩
    · exact absurd hmem List.not_mem_nil
    · rw [List.mem_singleton.mp hmem]
      exact .inr ⟨hfresh, hnext⟩

/-- A connection that is not marked for deletion is still there after polling. -/
theorem exists_mem_slots_poll {env : PollEnv} {m m' : Manager} {cause : CloseCause}
    (h : cmPoll env m = .ok (m', cause)) {s : Slot} (hs : s ∈ m.slots)
    (hdel : s.conn.state.delete = false) : ∃ s' ∈ m'.slots, SlotRun s s' := by
  obtain ⟨f, new, hslots, hnone, hrun, -⟩ := cmPoll_effect h
  cases hfs : f s with
  | none =>
    rw [hnone, hdel] at hfs
    exact absurd hfs Bool.false_ne_true
  | some s' =>
    refine ⟨s', ?_, hrun s s' hfs⟩
    rw [hslots]
    exact List.mem_append_left _ (List.mem_filterMap.mpr ⟨s, hs, hfs⟩)

theorem nextRef_poll {env : PollEnv} {m m' : Manager} {cause : CloseCause}
    (h : cmPoll env m = .ok (m', cause)) : m.nextRef ≤ m'.nextRef := by
  obtain ⟨f, new, -, -, -, ⟨-, hn⟩ | ⟨-, -, -, hn⟩⟩ := cmPoll_effect h <;> omega

/-- What the slots that stay keep. -/
theorem map_filterMap_sublist {α : Type*} {g : Slot → α} {slots : List Slot}
    {f : Slot → Option Slot} (hf : ∀ s s', f s = some s' → g s' = g s) :
    ((slots.filterMap f).map g).Sublist (slots.map g) := by
  induction slots with
  | nil => exact .slnil
  | cons s slots ih =>
    cases hfs : f s with
    | none =>
      rw [List.filterMap_cons_none hfs]
      exact ih.cons _
    | some s' =>
      rw [List.filterMap_cons_some hfs, List.map_cons, List.map_cons, hf s s' hfs]
      exact ih.cons_cons _

theorem WellFormed.poll {c : Controller} {env : PollEnv} {m : Manager} {cause : CloseCause}
    (hpoll : cmPoll env c.manager = .ok (m, cause)) (h : WellFormed c) :
    WellFormed { c with manager := m } := by
  refine ⟨?_, fun s' hs' => ?_, fun s' hs' => ?_, h.freeIds, h.sendingTo⟩
  · obtain ⟨f, new, hslots, -, hrun, hnew⟩ := cmPoll_effect hpoll
    have hold : ((c.slots.filterMap f).map Slot.ref).Sublist (c.slots.map Slot.ref) :=
      map_filterMap_sublist fun s s' hfs => (hrun s s' hfs).keeps.ref
    change (m.slots.map Slot.ref).Nodup
    rw [hslots]
    rcases hnew with ⟨rfl, -⟩ | ⟨s, rfl, hfresh, -⟩
    · rw [List.append_nil]
      exact hold.nodup h.nodup
    · refine nodup_append_fresh (hold.nodup h.nodup) (fun t ht => ?_) hfresh.ref
      obtain ⟨t₀, ht₀, hft⟩ := List.mem_filterMap.mp ht
      rw [(hrun t₀ t hft).keeps.ref]
      exact h.allocated t₀ ht₀
  · rcases mem_slots_poll hpoll hs' with ⟨s, hs, -, hrun⟩ | ⟨hfresh, hnext⟩
    · rw [hrun.keeps.ref]
      exact (h.allocated s hs).trans_le (nextRef_poll hpoll)
    · rw [hfresh.ref]
      exact Nat.lt_of_lt_of_eq (Nat.lt_succ_self _) hnext.symm
  · rcases mem_slots_poll hpoll hs' with ⟨s, hs, -, hrun⟩ | ⟨hfresh, -⟩
    · exact (h.slotOk s hs).slotRun hrun
    · exact hfresh.slotOk

/-! ### Sorting -/

/-- A slot after sorting: it may have got an id from the stack. -/
def Assigned (stack : List ℤ) (s s' : Slot) : Prop :=
  s' = s ∨ s.conn.id < 0 ∧ ∃ id ∈ stack, s' = { s with conn := { s.conn with id := id } }

theorem Assigned.mono {stack stack' : List ℤ} {s s' : Slot} (hsub : stack ⊆ stack')
    (h : Assigned stack s s') : Assigned stack' s s' :=
  h.imp id fun ⟨hneg, id, hid, hs'⟩ => ⟨hneg, id, hsub hid, hs'⟩

theorem Assigns.forall₂ {stack stack' : List ℤ} {slots slots' : List Slot}
    (h : Assigns stack slots stack' slots') :
    List.Forall₂ (Assigned stack) slots slots' ∧ stack' ⊆ stack := by
  induction h with
  | nil stack => exact ⟨.nil, List.Subset.refl _⟩
  | keep hid _ ih => exact ⟨.cons (.inl rfl) ih.1, ih.2⟩
  | wait hid _ ih => exact ⟨.cons (.inl rfl) ih.1, ih.2⟩
  | @take stack stack' slots slots' s id hid _ ih =>
    refine ⟨.cons (.inr ⟨hid, id, List.mem_cons_self, rfl⟩) ?_, List.subset_cons_of_subset _ ih.2⟩
    exact ih.1.imp fun s s' hs => hs.mono (List.subset_cons_self _ _)

theorem exists_of_forall₂_of_mem {α β : Type*} {r : α → β → Prop} {l : List α} {l' : List β}
    (h : List.Forall₂ r l l') {b : β} (hb : b ∈ l') : ∃ a ∈ l, r a b := by
  induction h with
  | nil => exact absurd hb List.not_mem_nil
  | @cons a b' l l' hab _ ih =>
    rcases List.mem_cons.mp hb with rfl | hmem
    · exact ⟨a, List.mem_cons_self, hab⟩
    · obtain ⟨a', ha', hr⟩ := ih hmem
      exact ⟨a', List.mem_cons_of_mem _ ha', hr⟩

theorem WellFormed.sort_assigns {c : Controller} (h : WellFormed c) :
    Assigns c.freeIds c.slots c.sort.freeIds c.sort.slots :=
  sortConnections_assigns _ _ _ fun s hs => (h.slotOk s hs).id_le

/-- A connection in the list after sorting was there before, and may have got an id. -/
theorem WellFormed.mem_slots_sort {c : Controller} (h : WellFormed c) {s' : Slot}
    (hs' : s' ∈ c.sort.slots) : ∃ s ∈ c.slots, Assigned c.freeIds s s' := by
  exact exists_of_forall₂_of_mem h.sort_assigns.forall₂.1 hs'

theorem Assigned.ref {stack : List ℤ} {s s' : Slot} (h : Assigned stack s s') :
    s'.ref = s.ref := by
  obtain rfl | ⟨-, id, -, rfl⟩ := h <;> rfl

theorem map_ref_of_assigned {stack : List ℤ} {slots slots' : List Slot}
    (h : List.Forall₂ (Assigned stack) slots slots') :
    slots'.map Slot.ref = slots.map Slot.ref := by
  induction h with
  | nil => rfl
  | cons hs _ ih => rw [List.map_cons, List.map_cons, hs.ref, ih]

theorem SlotOk.assigned {stack : List ℤ} {s s' : Slot} (hass : Assigned stack s s')
    (hstack : ∀ id ∈ stack, 0 ≤ id ∧ id ≤ 255) (h : SlotOk s) : SlotOk s' := by
  obtain rfl | ⟨-, id, hid, rfl⟩ := hass
  · exact h
  · have hrange := hstack id hid
    have hok := h.connOk
    refine ⟨?_, hrange.2, ⟨hok.1, hok.2, hok.3, hok.4, hok.5, hok.6, hok.7⟩, fun hneg => ?_⟩
    · change -1 ≤ id
      omega
    · change id < 0 at hneg
      omega

theorem WellFormed.sort {c : Controller} (h : WellFormed c) : WellFormed c.sort := by
  refine ⟨?_, fun s' hs' => ?_, fun s' hs' => ?_, fun id hid => ?_, h.sendingTo⟩
  · rw [map_ref_of_assigned h.sort_assigns.forall₂.1]
    exact h.nodup
  · obtain ⟨s, hs, hass⟩ := h.mem_slots_sort hs'
    rw [hass.ref]
    exact h.allocated s hs
  · obtain ⟨s, hs, hass⟩ := h.mem_slots_sort hs'
    exact (h.slotOk s hs).assigned hass h.freeIds
  · exact h.freeIds id (h.sort_assigns.forall₂.2 hid)

/-! ### Announcing -/

theorem mem_idStackPush {stack : List ℤ} {id i : ℤ} (h : i ∈ idStackPush stack id) :
    i = id ∨ i ∈ stack := by
  unfold idStackPush at h
  split_ifs at h
  · exact .inr h
  · exact List.mem_cons.mp h

theorem slots_announce (c : Controller) (s : Slot) (cmd : UInt8) (conn : Connection)
    (q : CmdQueue) :
    (c.announce s cmd conn q).slots = c.slots.map (modifySlot s.ref fun _ => conn) := rfl

/-- Ids stay in range when the id of a connection is given back. -/
theorem WellFormed.freeIds_push {c : Controller} (h : WellFormed c) {s : Slot} (hs : s ∈ c.slots)
    (hid : 0 ≤ s.conn.id) {p : Prop} [Decidable p] {i : ℤ}
    (hi : i ∈ if p then idStackPush c.freeIds s.conn.id else c.freeIds) : 0 ≤ i ∧ i ≤ 255 := by
  split_ifs at hi
  · rcases mem_idStackPush hi with rfl | hmem
    · exact ⟨hid, (h.slotOk s hs).id_le⟩
    · exact h.freeIds i hmem
  · exact h.freeIds i hi

/-- A slot of a list whose object has been changed, the others being as before. -/
theorem slotOk_modifySlot {slots : List Slot} (hnd : (slots.map Slot.ref).Nodup)
    (hok : ∀ t ∈ slots, SlotOk t) {s : Slot} (hs : s ∈ slots) {f : Connection → Connection}
    (hf : SlotOk { s with conn := f s.conn }) {t : Slot} (ht : t ∈ slots) :
    SlotOk (modifySlot s.ref f t) :=
  modifySlot_rel hnd hs (P := fun _ => SlotOk) hf (fun t ht _ => hok t ht) ht

theorem WellFormed.announce {c : Controller} {s : Slot} {cmd : UInt8} {conn : Connection}
    {q : CmdQueue} (hs : s ∈ c.slots) (hid : 1 ≤ s.conn.id) (hann : Announces s.conn cmd conn)
    (h : WellFormed c) : WellFormed (c.announce s cmd conn q) := by
  have hsok := h.slotOk s hs
  refine h.map (slots_announce ..) (fun t _ => ref_modifySlot _ _ t) (fun t ht => ?_) rfl
    (fun i hi => h.freeIds_push hs (by omega) hi) h.sendingTo
  refine slotOk_modifySlot h.nodup h.slotOk hs ⟨?_, ?_, hsok.connOk.announces hann, ?_⟩ ht
  · exact hann.id ▸ hsok.id_ge
  · exact hann.id ▸ hsok.id_le
  · intro hneg
    change conn.id < 0 at hneg
    rw [hann.id] at hneg
    omega

/-! ### Delivering -/

theorem SlotOk.bufferStep {s s' : Slot} (hstep : BufferStep s s') (h : SlotOk s) : SlotOk s' := by
  constructor
  · rw [hstep.id]
    exact h.id_ge
  · rw [hstep.id]
    exact h.id_le
  · exact h.connOk.bufferStep hstep
  · rw [hstep.id, hstep.state, hstep.outState]
    exact h.waiting

theorem WellFormed.moved {c c' : Controller} {id : ℤ} (h : WellFormed c)
    (hmoved : SlotsMoved id c.slots c'.slots)
    (hnext : c'.manager.nextRef = c.manager.nextRef) (hfree : c'.freeIds = c.freeIds)
    (hsend : c'.pump.sendingTo = -1 ∨ 1 ≤ c'.pump.sendingTo ∧ c'.pump.sendingTo ≤ 255) :
    WellFormed c' := by
  obtain ⟨g, hslots, hg, -⟩ := hmoved
  exact h.map hslots (fun s hs => (hg s hs).ref) (fun s hs => (h.slotOk s hs).bufferStep (hg s hs))
    hnext (hfree ▸ h.freeIds) hsend

theorem length_decode (wild : ℕ → UInt8) (src dst : RoundBuffer) :
    dst.length ≤ (decode wild src dst).2.2.length := by
  have := dst.length_le
  rw [decode, length_bufAdvanceWritePtr]
  dsimp only
  omega

/-- Bytes leave the input of an object. -/
theorem slotsMoved_inBuf (id : ℤ) (slots : List Slot) (ref : ℕ) (f : RoundBuffer → RoundBuffer) :
    SlotsMoved id slots (modifyConn slots ref fun conn => { conn with inBuf := f conn.inBuf }) :=
  slotsMoved_modifyConn fun _ _ _ =>
    ⟨⟨rfl, rfl, rfl, rfl, rfl, rfl, rfl, rfl, Nat.le_refl _⟩, .inr rfl⟩

/-- Bytes are added to the output of an object. -/
theorem slotsMoved_outBuf {slots : List Slot} (hnd : (slots.map Slot.ref).Nodup) {s : Slot}
    (hs : s ∈ slots) {buf : RoundBuffer} (hbuf : s.conn.outBuf.length ≤ buf.length) :
    SlotsMoved s.conn.id slots
      (modifyConn slots s.ref fun conn => { conn with outBuf := buf }) := by
  refine slotsMoved_modifyConn fun t ht href => ?_
  rw [eq_of_ref_eq hnd ht hs href]
  exact ⟨⟨rfl, rfl, rfl, rfl, rfl, rfl, rfl, rfl, hbuf⟩, .inl rfl⟩

/-- Bytes go from the input of one object to the output of another one. -/
theorem slotsMoved_inBuf_outBuf {slots : List Slot} (hnd : (slots.map Slot.ref).Nodup) (ref : ℕ)
    (f : RoundBuffer → RoundBuffer) {s : Slot} (hs : s ∈ slots) {buf : RoundBuffer}
    (hbuf : s.conn.outBuf.length ≤ buf.length) :
    SlotsMoved s.conn.id slots
      (modifyConn (modifyConn slots ref fun conn => { conn with inBuf := f conn.inBuf }) s.ref
        fun conn => { conn with outBuf := buf }) := by
  refine (slotsMoved_inBuf s.conn.id slots ref f).trans (slotsMoved_modifyConn fun t ht href => ?_)
  rw [modifyConn_eq_map, List.mem_map] at ht
  obtain ⟨t₀, ht₀, rfl⟩ := ht
  rw [ref_modifySlot] at href
  obtain rfl := eq_of_ref_eq hnd ht₀ hs href
  have hkeep : (modifySlot ref (fun conn => { conn with inBuf := f conn.inBuf }) t₀).conn.outBuf =
      t₀.conn.outBuf ∧
        (modifySlot ref (fun conn => { conn with inBuf := f conn.inBuf }) t₀).conn.id =
          t₀.conn.id := by
    unfold modifySlot
    split <;> exact ⟨rfl, rfl⟩
  exact ⟨⟨rfl, rfl, rfl, rfl, rfl, rfl, rfl, rfl, hkeep.1 ▸ hbuf⟩, .inl hkeep.2⟩

/-- Delivering moves bytes only. -/
theorem slotsMoved_deliver {c : Controller} (hnd : (c.slots.map Slot.ref).Nodup) (env : PumpEnv)
    (id : ℕ) (tunnel : Slot) {target : Slot} (htarget : target ∈ c.slots) :
    SlotsMoved target.conn.id c.slots (c.deliver env id tunnel target).slots :=
  slotsMoved_inBuf_outBuf hnd tunnel.ref
    (fun _ => (decode env.wild tunnel.conn.inBuf target.conn.outBuf).2.1) htarget
    (length_decode env.wild tunnel.conn.inBuf target.conn.outBuf)

/-! ### Handling a command -/

/-- The slot of a connection that has just been opened to the service. -/
structure FreshServer (m : Manager) (id : ℤ) (inc : ℕ) (s : Slot) : Prop where
  ref : s.ref = m.nextRef
  inc : s.inc = inc
  id : s.conn.id = id
  state : s.conn.state = {}
  inState : s.conn.inState = {}
  outState : s.conn.outState = {}
  inBuf : s.conn.inBuf.length = 0
  outBuf : s.conn.outBuf.length = 0

/-- `cm_connect` reports a connection exactly when it has added one. -/
theorem cmConnect_slots (env : ConnectEnv) (m : Manager) (inBufSize outBufSize : ℕ+) (id : ℤ)
    (inc : ℕ) :
    (cmConnect env m inBufSize outBufSize id inc).1 = false ∧
        (cmConnect env m inBufSize outBufSize id inc).2.slots = m.slots ∧
        m.nextRef ≤ (cmConnect env m inBufSize outBufSize id inc).2.nextRef ∨
      (cmConnect env m inBufSize outBufSize id inc).1 = true ∧
        ∃ s, (cmConnect env m inBufSize outBufSize id inc).2.slots = m.slots ++ [s] ∧
          FreshServer m id inc s ∧
          (cmConnect env m inBufSize outBufSize id inc).2.nextRef = m.nextRef + 1 := by
  unfold cmConnect
  by_cases hfull : m.slots.length = managerMaxConnections
  · rw [if_pos hfull]
    exact .inl ⟨rfl, rfl, Nat.le_refl _⟩
  · rw [if_neg hfull, makeConnection]
    cases env.malloc.ok with
    | false => exact .inl ⟨rfl, rfl, Nat.le_refl _⟩
    | true =>
      cases env.socket with
      | none => exact .inl ⟨rfl, rfl, Nat.le_refl _⟩
      | some fd =>
        cases env.connect with
        | false => exact .inl ⟨rfl, rfl, Nat.le_succ m.nextRef⟩
        | true =>
          simp only [cmAddConnection, if_true]
          rw [if_neg hfull]
          exact .inr ⟨rfl, _, rfl, ⟨rfl, rfl, rfl, rfl, rfl, rfl, rfl, rfl⟩, rfl⟩

/-- The connection that a command is about: the first one with its id. -/
def commandTarget (c : Controller) (command : Command) : Option Slot :=
  c.slots.find? fun s => s.conn.id == (command.arg.toNat : ℤ)

theorem commandTarget_eq_some {c : Controller} {command : Command} {s : Slot}
    (h : commandTarget c command = some s) : s ∈ c.slots ∧ s.conn.id = command.arg.toNat :=
  ⟨List.mem_of_find?_eq_some h, by simpa using List.find?_some h⟩

theorem modify_id (c : Controller) (ref : ℕ) : (c.modify ref fun conn => conn) = c := by
  unfold Controller.modify Controller.setSlots modifyConn
  simp [Controller.slots]

/-- A command about a connection that is there changes this connection, and gives its id back if
it closes it. -/
theorem onCommand_of_some {env : ConnectEnv} {c : Controller} {command : Command} {s : Slot}
    (h : commandTarget c command = some s) :
    onCommand env c command =
      { (c.note (.handled command (some s) c.freeIds false)).modify s.ref
          (commandChange command.cmd) with
        freeIds := if command.cmd = cmdClose ∧ c.accepting then idStackPush c.freeIds s.conn.id
          else c.freeIds } := by
  have hfind : (c.slots.find? fun s => s.conn.id == (command.arg.toNat : ℤ)) = some s := h
  have hkeep : command.cmd ≠ cmdClose → command.cmd ≠ cmdCloseSrcToDst →
      command.cmd ≠ cmdCloseDstToSrc → command.cmd ≠ cmdAck →
      commandChange command.cmd = fun conn => conn := by
    intro h₁ h₂ h₃ h₄
    funext conn
    simp [commandChange, h₁, h₂, h₃, h₄]
  unfold onCommand
  simp only [hfind]
  by_cases hnew : command.cmd = cmdNew
  · have hne : command.cmd ≠ cmdClose := by rw [hnew]; decide
    rw [if_pos hnew, if_neg (fun hc => hne hc.1), hkeep hne (by rw [hnew]; decide)
      (by rw [hnew]; decide) (by rw [hnew]; decide), modify_id]
    rfl
  · rw [if_neg hnew]
    by_cases hclose : command.cmd = cmdClose
    · rw [if_pos (.inl hclose), hclose]
      cases haccepting : c.accepting <;> simp [Controller.note, Controller.modify,
        Controller.setSlots, Controller.slots, haccepting]
    · rw [if_neg (fun hc : command.cmd = cmdClose ∧ _ => hclose hc.1)]
      by_cases hcmd : command.cmd = cmdClose ∨ command.cmd = cmdCloseSrcToDst ∨
          command.cmd = cmdCloseDstToSrc ∨ command.cmd = cmdAck
      · rw [if_pos hcmd, decide_eq_false hclose, Bool.false_and, if_neg Bool.false_ne_true]
        rfl
      · rw [if_neg hcmd]
        simp only [not_or] at hcmd
        rw [hkeep hcmd.1 hcmd.2.1 hcmd.2.2.1 hcmd.2.2.2, modify_id]
        rfl

theorem onCommand_of_none {env : ConnectEnv} {c : Controller} {command : Command}
    (h : commandTarget c command = none) (hcmd : command.cmd ≠ cmdNew) :
    onCommand env c command = c.note (.handled command none c.freeIds false) := by
  have hfind : (c.slots.find? fun s => s.conn.id == (command.arg.toNat : ℤ)) = none := h
  unfold onCommand
  dsimp only
  rw [hfind, if_neg hcmd]
  split <;> rfl

/-- `CMD_NEW` for an id that no connection has opens a connection, and answers. -/
theorem onCommand_new {env : ConnectEnv} {c : Controller} {command : Command}
    (h : commandTarget c command = none) (hcmd : command.cmd = cmdNew) :
    onCommand env c command =
      sendOrWarn
        { c.note (.handled command none c.freeIds
            (cmConnect env c.manager c.bufSize c.bufSize (command.arg.toNat : ℤ)
            command.tag).1) with
          manager := (cmConnect env c.manager c.bufSize c.bufSize (command.arg.toNat : ℤ)
            command.tag).2 }
        ⟨if (cmConnect env c.manager c.bufSize c.bufSize (command.arg.toNat : ℤ) command.tag).1
          then cmdAck else cmdClose, command.arg, command.tag⟩ := by
  have hfind : (c.slots.find? fun s => s.conn.id == (command.arg.toNat : ℤ)) = none := h
  unfold onCommand
  dsimp only
  rw [hfind, if_pos hcmd]

/-- `send_command` changes the queue only. -/
theorem sendOrWarn_eq (c : Controller) (command : Command) :
    ∃ q, sendOrWarn c command = c.setQueue q := by
  unfold sendOrWarn sendCommand
  cases cmdqEnqueue c.pump.cmdQueue command with
  | none => exact ⟨c.pump.cmdQueue, rfl⟩
  | some q => exact ⟨q, rfl⟩

/-- `CMD_NEW` for an id that no connection has changes the manager, the trace and the queue. -/
theorem onCommand_connect (env : ConnectEnv) {c : Controller} {command : Command}
    (h : commandTarget c command = none) (hcmd : command.cmd = cmdNew) :
    let r := cmConnect env c.manager c.bufSize c.bufSize (command.arg.toNat : ℤ) command.tag
    ∃ q, onCommand env c command =
      Controller.setQueue { c.note (.handled command none c.freeIds r.1) with manager :=
      r.2 } q := by
  rw [onCommand_new h hcmd]
  exact sendOrWarn_eq _ _

/-- What a command does to the connections: it changes the first one with its id, or it may open a
connection with this id. The trace records the command, and no other field depends on it except the
queue and the stack of ids. -/
structure CommandEffect (c c' : Controller) (command : Command) (opened : Bool) : Prop where
  slots :
    (∃ s, commandTarget c command = some s ∧ opened = false ∧
        c'.slots = c.slots.map (modifySlot s.ref (commandChange command.cmd)) ∧
        c'.manager.nextRef = c.manager.nextRef ∧
        c'.freeIds = if command.cmd = cmdClose ∧ c.accepting then idStackPush c.freeIds s.conn.id
          else c.freeIds) ∨
      commandTarget c command = none ∧ c'.freeIds = c.freeIds ∧
        (opened = false ∧ c'.slots = c.slots ∧ c.manager.nextRef ≤ c'.manager.nextRef ∨
          opened = true ∧ command.cmd = cmdNew ∧ ∃ s, c'.slots = c.slots ++ [s] ∧
            FreshServer c.manager command.arg.toNat command.tag s ∧
            c'.manager.nextRef = c.manager.nextRef + 1)
  sendingTo : c'.pump.sendingTo = c.pump.sendingTo
  accepting : c'.accepting = c.accepting
  trace : c'.trace = .handled command (commandTarget c command) c.freeIds opened :: c.trace

/-- **What a command does.** -/
theorem onCommand_effect (env : ConnectEnv) (c : Controller) (command : Command) :
    ∃ opened, CommandEffect c (onCommand env c command) command opened := by
  cases htarget : commandTarget c command with
  | some s =>
    rw [onCommand_of_some htarget]
    exact ⟨false, .inl ⟨s, htarget, rfl, rfl, rfl, rfl⟩, rfl, rfl, by rw [htarget]; rfl⟩
  | none =>
    by_cases hcmd : command.cmd = cmdNew
    · obtain ⟨q, hq⟩ := onCommand_connect env htarget hcmd
      rw [hq]
      refine ⟨_, .inr ⟨htarget, rfl, ?_⟩, rfl, rfl, by rw [htarget]; rfl⟩
      rcases cmConnect_slots env c.manager c.bufSize c.bufSize (command.arg.toNat : ℤ) command.tag
        with ⟨hfailed, hslots, hnext⟩ | ⟨hopened, s, hslots, hfresh, hnext⟩
      · exact .inl ⟨hfailed, hslots, hnext⟩
      · exact .inr ⟨hopened, hcmd, s, hslots, hfresh, hnext⟩
    · rw [onCommand_of_none htarget hcmd]
      exact ⟨false, .inr ⟨htarget, rfl, .inl ⟨rfl, rfl, Nat.le_refl _⟩⟩, rfl, rfl,
        by rw [htarget]; rfl⟩

theorem FreshServer.slotOk {m : Manager} {id : ℤ} {inc : ℕ} {s : Slot}
    (h : FreshServer m id inc s) (hid : -1 ≤ id ∧ id ≤ 255) : SlotOk s where
  id_ge := h.id ▸ hid.1
  id_le := h.id ▸ hid.2
  connOk := by constructor <;> simp [h.state, h.inState, h.outState]
  waiting _ := by simp [h.state, h.outState]

theorem WellFormed.onCommand {c : Controller} (env : ConnectEnv) (command : Command)
    (h : WellFormed c) : WellFormed (onCommand env c command) := by
  obtain ⟨opened, heff⟩ := onCommand_effect env c command
  have hsend := heff.sendingTo ▸ h.sendingTo
  rcases heff.slots with ⟨s, htarget, -, hslots, hnext, hfree⟩ |
    ⟨-, hfree, ⟨-, hslots, hnext⟩ | ⟨-, -, s, hslots, hfresh, hnext⟩⟩
  · obtain ⟨hs, hid⟩ := commandTarget_eq_some htarget
    have hsok := h.slotOk s hs
    refine h.map hslots (fun t _ => ref_modifySlot _ _ t) (fun t ht => ?_) hnext
      (fun i hi => h.freeIds_push hs (by omega) (hfree ▸ hi)) hsend
    refine slotOk_modifySlot h.nodup h.slotOk hs
      ⟨?_, ?_, hsok.connOk.commandChange command.cmd, fun hneg => ?_⟩ ht
    · simpa using hsok.id_ge
    · simpa using hsok.id_le
    · rw [id_commandChange] at hneg
      omega
  · refine ⟨hslots ▸ h.nodup, fun s hs => ?_, fun s hs => ?_, hfree ▸ h.freeIds, hsend⟩
    · exact (h.allocated s (hslots ▸ hs)).trans_le hnext
    · exact h.slotOk s (hslots ▸ hs)
  · have hmem : ∀ t ∈ (PortForwarding.onCommand env c command).slots, t ∈ c.slots ∨ t = s :=
      fun t ht => by simpa [hslots] using ht
    refine ⟨?_, fun t ht => ?_, fun t ht => ?_, hfree ▸ h.freeIds, hsend⟩
    · rw [hslots]
      exact nodup_append_fresh h.nodup h.allocated hfresh.ref
    · rw [hnext]
      rcases hmem t ht with ht | rfl
      · exact (h.allocated t ht).trans_le (Nat.le_succ _)
      · exact hfresh.ref ▸ Nat.lt_succ_self _
    · rcases hmem t ht with ht | rfl
      · exact h.slotOk t ht
      · have hbyte := command.arg.toNat_lt
        exact hfresh.slotOk (by omega)

/-! ### Every step -/

/-- **Every step keeps the invariant.** -/
theorem Step.wellFormed {c c' : Controller} (hstep : Step c c') (h : WellFormed c) :
    WellFormed c' := by
  cases hstep with
  | poll hpoll => exact h.poll hpoll
  | sort => exact h.sort
  | announce hs hid _ hann => exact h.announce hs hid hann
  | @deliver env id tunnel target hid hlast =>
    obtain ⟨htarget, hidt⟩ := mem_of_lastWithId hlast
    have hle := (h.slotOk target htarget).id_le
    refine h.moved (slotsMoved_deliver h.nodup env id tunnel htarget) rfl rfl ?_
    change (if _ then (-1 : ℤ) else id) = -1 ∨ _
    split
    · exact .inl rfl
    · refine .inr ?_
      change 1 ≤ (if _ then (-1 : ℤ) else id) ∧ (if _ then (-1 : ℤ) else id) ≤ 255
      rw [if_neg ‹_›]
      omega
  | handle env cmd arg => exact h.onCommand env ⟨cmd, arg, 0⟩
  | quiet hq => exact h.moved hq.moved hq.nextRef hq.freeIds (hq.sendingTo ▸ h.sendingTo)

theorem StepRun.wellFormed {c c' : Controller} (hrun : StepRun c c') (h : WellFormed c) :
    WellFormed c' := by
  induction hrun with
  | refl => exact h
  | tail _ hlast ih => exact hlast.wellFormed ih

end OsTasks.PortForwarding
