import Mathlib.Logic.Relation
import OsTasks.PortForwarding.Slots

/-!
# What polling does to the slots

`cm_poll` treats every connection by itself: it removes it, or applies to it some of the five
operations `SlotOp`. At most one new connection comes behind the others.

## Main definitions

* `SlotOp`, `SlotRun`: the operations of the manager on one slot, and sequences of them.
* `FreshClient`: the slot of a client that has just been accepted.
* `PollEffect`: the effect of `cm_poll` on the list of slots.
* `SlotKeeps`: what no operation of the manager changes.

## Main results

* `cmPoll_effect`: every call of `cm_poll` has this effect.
* `SlotRun.keeps`: the manager changes no id, and sets or clears no bit but `CS_EOF` and
  `CS_CLOSED`.
-/

namespace OsTasks.PortForwarding

/-! ### Operations on one slot -/

/-- The operations of the manager on one slot. -/
inductive SlotOp : Slot → Slot → Prop
  | close (s : Slot) : SlotOp s (closeSocket s).1
  | arm (s : Slot) : SlotOp s (armOutput s)
  | poll (ready : ℕ → PollMask) (s : Slot) : SlotOp s (pollSlot ready s)
  | receive (r : ReadResult) (s : Slot) (h : isAlive s.conn.state = true) :
      SlotOp s (receive r s).1
  | transmit (r : WriteResult) (s : Slot) (h : isAlive s.conn.state = true) :
      SlotOp s (transmit r s).1

/-- A sequence of operations of the manager on one slot. -/
abbrev SlotRun : Slot → Slot → Prop := Relation.ReflTransGen SlotOp

/-- A property that every operation keeps is kept by a sequence of operations. -/
theorem SlotRun.keep {P : Slot → Prop} (hop : ∀ {s s'}, SlotOp s s' → P s → P s') {s s' : Slot}
    (h : SlotRun s s') (hs : P s) : P s' := by
  induction h with
  | refl => exact hs
  | tail _ hlast ih => exact hop hlast ih

/-- What no operation of the manager changes: the object, its id, and all status bits except
`CS_EOF` and `CS_CLOSED`. -/
structure SlotKeeps (s s' : Slot) : Prop where
  ref : s'.ref = s.ref
  inc : s'.inc = s.inc
  own : s'.own = s.own
  id : s'.conn.id = s.conn.id
  new : s'.conn.state.new = s.conn.state.new
  eof : s'.conn.state.eof = s.conn.state.eof
  delete : s'.conn.state.delete = s.conn.state.delete
  stopped : s'.conn.state.stopped = s.conn.state.stopped
  inDelete : s'.conn.inState.delete = s.conn.inState.delete
  outDelete : s'.conn.outState.delete = s.conn.outState.delete

theorem SlotKeeps.refl (s : Slot) : SlotKeeps s s :=
  ⟨rfl, rfl, rfl, rfl, rfl, rfl, rfl, rfl, rfl, rfl⟩

theorem SlotKeeps.trans {s t u : Slot} (h : SlotKeeps s t) (h' : SlotKeeps t u) :
    SlotKeeps s u where
  ref := h'.ref.trans h.ref
  inc := h'.inc.trans h.inc
  own := h'.own.trans h.own
  id := h'.id.trans h.id
  new := h'.new.trans h.new
  eof := h'.eof.trans h.eof
  delete := h'.delete.trans h.delete
  stopped := h'.stopped.trans h.stopped
  inDelete := h'.inDelete.trans h.inDelete
  outDelete := h'.outDelete.trans h.outDelete

@[simp] theorem delete_markEof (cause : RwCause) (state : ConnState) :
    (markEof cause state).delete = state.delete := by
  cases cause <;> rfl

@[simp] theorem closed_markEof (cause : RwCause) (state : ConnState) :
    (markEof cause state).closed = state.closed := by
  cases cause <;> rfl

@[simp] theorem delete_closeDirection (state : ConnState) :
    (closeDirection state).delete = state.delete := by
  unfold closeDirection
  split <;> rfl

@[simp] theorem eof_closeDirection (state : ConnState) :
    (closeDirection state).eof = state.eof := by
  unfold closeDirection
  split <;> rfl

/-- The three outcomes of `close_sockets` on one slot. -/
theorem closeSocket_cases (s : Slot) :
    s.conn.state.closed = true ∧ (closeSocket s).1 = s ∨
      s.conn.state.closed = false ∧ shouldCloseSocket s.conn = true ∧ (closeSocket s).1 = s.shut ∨
      s.conn.state.closed = false ∧ shouldCloseSocket s.conn = false ∧
        (closeSocket s).1 = s.shutDirections := by
  unfold closeSocket isClosed
  cases hclosed : s.conn.state.closed
  · cases hclose : shouldCloseSocket s.conn
    · exact .inr (.inr ⟨rfl, rfl, rfl⟩)
    · exact .inr (.inl ⟨rfl, rfl, rfl⟩)
  · exact .inl ⟨rfl, rfl⟩

/-- The outcomes of `receive`: nothing, a new request to `poll`, or a read before it. -/
theorem receive_cases (r : ReadResult) (s : Slot) :
    (receive r s).1 = s ∨ ∃ pfd conn, (receive r s).1 = { s with conn := conn, pfd := pfd } ∧
      isAlive s.conn.inState = true ∧ s.conn.state.stopped = false ∧
      (conn = s.conn ∨ ∃ cause, conn =
        { s.conn with
          inBuf := (bufRead r s.conn.inBuf).2.2
          inState := markEof cause s.conn.inState }) := by
  unfold receive isStopped
  split_ifs with h₁ h₂
  · exact .inl rfl
  all_goals
    simp only [Bool.not_eq_true, Bool.or_eq_false_iff, Bool.not_eq_false'] at h₁
  · exact .inr ⟨_, _, rfl, h₁.1, h₁.2, .inr ⟨_, rfl⟩⟩
  · exact .inr ⟨_, _, rfl, h₁.1, h₁.2, .inl rfl⟩

/-- The outcomes of `transmit`: nothing, a new request to `poll`, or a write before it. -/
theorem transmit_cases (r : WriteResult) (s : Slot) :
    (transmit r s).1 = s ∨ ∃ pfd conn, (transmit r s).1 = { s with conn := conn, pfd := pfd } ∧
      isAlive s.conn.outState = true ∧ s.conn.state.stopped = false ∧
      (conn = s.conn ∨ s.conn.outBuf.length ≠ 0 ∧ conn =
        { s.conn with
          outBuf := (bufWrite r s.conn.outBuf).2.2
          outState :=
            markEof (getRwErrorCause (bufWrite r s.conn.outBuf).1 r.errno) s.conn.outState }) := by
  unfold transmit isStopped
  split_ifs with h₁ h₂
  · exact .inl rfl
  all_goals
    simp only [Bool.not_eq_true, Bool.or_eq_false_iff, Bool.not_eq_false'] at h₁
  · refine .inr ⟨_, _, rfl, h₁.1, h₁.2, .inr ⟨?_, rfl⟩⟩
    simpa [bufEmpty] using (Bool.and_eq_true_iff.mp h₂).2
  · exact .inr ⟨_, _, rfl, h₁.1, h₁.2, .inl rfl⟩

@[simp] theorem conn_armOutput (s : Slot) : (armOutput s).conn = s.conn := by
  unfold armOutput
  split_ifs <;> rfl

theorem SlotOp.keeps {s s' : Slot} (h : SlotOp s s') : SlotKeeps s s' := by
  cases h with
  | close =>
    rcases closeSocket_cases s with ⟨-, h⟩ | ⟨-, -, h⟩ | ⟨-, -, h⟩ <;> rw [h]
    · exact .refl s
    · exact ⟨rfl, rfl, rfl, rfl, rfl, rfl, rfl, rfl, rfl, rfl⟩
    · exact ⟨rfl, rfl, rfl, rfl, rfl, rfl, rfl, rfl, delete_closeDirection _,
        delete_closeDirection _⟩
  | arm =>
    unfold armOutput
    split_ifs <;> exact ⟨rfl, rfl, rfl, rfl, rfl, rfl, rfl, rfl, rfl, rfl⟩
  | poll => exact ⟨rfl, rfl, rfl, rfl, rfl, rfl, rfl, rfl, rfl, rfl⟩
  | receive r _ halive =>
    rcases receive_cases r s with h | ⟨_, _, h, -, -, rfl | ⟨_, rfl⟩⟩ <;> rw [h]
    · exact .refl s
    · exact ⟨rfl, rfl, rfl, rfl, rfl, rfl, rfl, rfl, rfl, rfl⟩
    · exact ⟨rfl, rfl, rfl, rfl, rfl, rfl, rfl, rfl, delete_markEof _ _, rfl⟩
  | transmit r _ halive =>
    rcases transmit_cases r s with h | ⟨_, _, h, -, -, rfl | ⟨-, rfl⟩⟩ <;> rw [h]
    · exact .refl s
    · exact ⟨rfl, rfl, rfl, rfl, rfl, rfl, rfl, rfl, rfl, rfl⟩
    · exact ⟨rfl, rfl, rfl, rfl, rfl, rfl, rfl, rfl, rfl, delete_markEof _ _⟩

theorem SlotRun.keeps {s s' : Slot} (h : SlotRun s s') : SlotKeeps s s' := by
  induction h with
  | refl => exact .refl s
  | tail _ hlast ih => exact ih.trans hlast.keeps

/-! ### The phases of a call -/

/-- One slot before `poll` is called: it is removed, or its output is armed. -/
def enterSlot (s : Slot) : Option Slot :=
  let s := (closeSocket s).1
  if shouldDelete s.conn.state then none else some (armOutput s)

/-- One slot after `poll` has returned. -/
def leaveSlot (env : SocketEnv) (s : Slot) : Option Slot :=
  let s := (closeSocket (serve env s).1).1
  if shouldDelete s.conn.state then none else some s

theorem filter_map_eq_filterMap {α β : Type*} (p : β → Bool) (f : α → β) (l : List α) :
    (l.map f).filter (fun b => !p b) = l.filterMap fun a =>
      if p (f a) then none else some (f a) := by
  induction l with
  | nil => rfl
  | cons a l ih =>
    rw [List.map_cons, List.filterMap_cons]
    cases h : p (f a) <;> simp [h, ih]

theorem modify_length_append {α : Type*} (l₁ l₂ : List α) (a : α) (f : α → α) :
    (l₁ ++ a :: l₂).modify l₁.length f = l₁ ++ f a :: l₂ := by
  induction l₁ with
  | nil => rfl
  | cons b l₁ ih => exact congrArg (b :: ·) ih

/-- The loop of `shrink` keeps the slots that are not deleted: those it has passed and kept are at
the front, and between them and the rest is what it has copied or skipped. -/
theorem shrinkLoop_eq (kept moved rest : List Slot) :
    (fun r : ℕ × List Slot => r.2.take r.1)
        (shrinkLoop rest.length (kept.length + moved.length) kept.length (kept ++ moved ++ rest)) =
      kept ++ rest.filter fun s => !shouldDelete s.conn.state := by
  induction rest generalizing kept moved with
  | nil => simp [shrinkLoop]
  | cons s rest ih =>
    have hget : (kept ++ moved ++ s :: rest)[kept.length + moved.length]? = some s := by
      rw [← List.length_append, List.getElem?_append_right (Nat.le_refl _), Nat.sub_self]
      rfl
    rw [List.length_cons, shrinkLoop, hget]
    dsimp only
    cases hdel : shouldDelete s.conn.state with
    | true =>
      have hskip := ih kept (moved ++ [s])
      rw [List.length_append, List.length_singleton, ← Nat.add_assoc, ← List.append_assoc,
        List.append_assoc (kept ++ moved)] at hskip
      rw [if_pos rfl, List.filter_cons_of_neg (by simp [hdel])]
      exact hskip
    | false =>
      rw [if_neg Bool.false_ne_true, List.filter_cons_of_pos (by simp [hdel])]
      cases moved with
      | nil =>
        have hkeep := ih (kept ++ [s]) []
        simp only [List.length_append, List.length_singleton, List.length_nil, Nat.add_zero,
          List.append_nil, List.append_assoc, List.singleton_append] at hkeep ⊢
        rw [if_pos trivial]
        exact hkeep
      | cons t moved =>
        -- both halves of slot `i` are overwritten by those of slot `j`
        have hcopy : ((kept ++ t :: moved ++ s :: rest).modify kept.length
            fun t => t.setConnection s).modify kept.length (fun t => t.setFd s) =
              kept ++ [s] ++ (moved ++ [s]) ++ rest := by
          simp [modify_length_append, Slot.setConnection, Slot.setFd]
        have hkeep := ih (kept ++ [s]) (moved ++ [s])
        rw [if_neg (by simp), hcopy]
        simp only [List.length_append, List.length_cons, List.length_nil, List.append_assoc,
          List.singleton_append] at hkeep ⊢
        rw [show kept.length + (moved.length + 1) + 1 =
          kept.length + 1 + (moved.length + 1) by omega]
        exact hkeep

/-- `shrink` removes the slots that are deleted, with their descriptors. -/
theorem slots_shrink (m : Manager) :
    (shrink m).slots = m.slots.filter fun s => !shouldDelete s.conn.state :=
  shrinkLoop_eq [] [] m.slots

theorem slots_shrink_closeSockets (m : Manager) :
    (shrink (closeSockets m)).slots = m.slots.filterMap fun s =>
      if shouldDelete (closeSocket s).1.conn.state then none else some (closeSocket s).1 :=
  (slots_shrink _).trans (filter_map_eq_filterMap (fun s : Slot => shouldDelete s.conn.state)
    (fun s => (closeSocket s).1) m.slots)

theorem slots_beforePoll (m : Manager) : (beforePoll m).slots = m.slots.filterMap enterSlot := by
  change ((shrink (closeSockets m)).slots).map armOutput = _
  rw [slots_shrink_closeSockets, List.map_filterMap]
  congr 1
  funext s
  unfold enterSlot
  dsimp only
  split <;> rfl

theorem slots_pollAll (ready : ℕ → PollMask) (m : Manager) :
    (pollAll ready m).slots = m.slots.map (pollSlot ready) := rfl

theorem serve_slotRun (env : SocketEnv) (s : Slot) : SlotRun s (serve env s).1 := by
  unfold serve
  split_ifs with h
  · have hreceive := SlotOp.receive (env.read s.ref) s h
    have halive : isAlive (receive (env.read s.ref) s).1.conn.state = true := by
      have hkeep := hreceive.keeps
      have hclosed : (receive (env.read s.ref) s).1.conn.state = s.conn.state := by
        unfold receive
        dsimp only
        split_ifs <;> rfl
      rw [hclosed, h]
    exact .tail (.single hreceive) (.transmit _ _ halive)
  · exact .refl

theorem enterSlot_slotRun {s s' : Slot} (h : enterSlot s = some s') : SlotRun s s' := by
  unfold enterSlot at h
  dsimp only at h
  split_ifs at h
  obtain rfl := Option.some.inj h
  exact .tail (.single (.close s)) (.arm _)

theorem leaveSlot_slotRun {env : SocketEnv} {s s' : Slot} (h : leaveSlot env s = some s') :
    SlotRun s s' := by
  unfold leaveSlot at h
  dsimp only at h
  split_ifs at h
  obtain rfl := Option.some.inj h
  exact .tail (serve_slotRun env s) (.close _)

/-- A connection that is marked for deletion is closed at once. -/
theorem closed_closeSocket_of_delete {s : Slot} (h : s.conn.state.delete = true) :
    (closeSocket s).1.conn.state.closed = true := by
  rcases closeSocket_cases s with ⟨hclosed, h'⟩ | ⟨-, -, h'⟩ | ⟨-, hclose, -⟩
  · rw [h', hclosed]
  · rw [h']
    rfl
  · simp [shouldCloseSocket, shouldClose, h] at hclose

/-- A connection leaves the list before `poll` exactly when it is marked for deletion. -/
theorem enterSlot_eq_none_iff (s : Slot) : enterSlot s = none ↔ s.conn.state.delete = true := by
  have hkeep := (SlotOp.close s).keeps.delete
  unfold enterSlot
  dsimp only
  split_ifs with h
  · rw [shouldDelete_iff, hkeep] at h
    simp [h.1]
  · rw [shouldDelete_iff, hkeep] at h
    simp only [false_iff]
    exact fun hdel => h ⟨hdel, closed_closeSocket_of_delete hdel⟩

theorem leaveSlot_eq_none {env : SocketEnv} {s : Slot} (h : leaveSlot env s = none) :
    s.conn.state.delete = true := by
  have hkeep := (serve_slotRun env s).keeps.delete.symm.trans
    (SlotOp.close (serve env s).1).keeps.delete.symm
  unfold leaveSlot at h
  dsimp only at h
  split_ifs at h with hdel
  rw [shouldDelete_iff] at hdel
  rw [hkeep, hdel.1]

/-! ### The whole call -/

/-- The slot of a client that `accept_connection` has just added. -/
structure FreshClient (m : Manager) (s : Slot) : Prop where
  ref : s.ref = m.nextRef
  inc : s.inc = m.nextRef
  id : s.conn.id = -1
  state : s.conn.state = { new := true }
  inState : s.conn.inState = {}
  outState : s.conn.outState = {}
  inBuf : s.conn.inBuf.length = 0
  outBuf : s.conn.outBuf.length = 0

/-- The effect of `cm_poll` on the slots: the connections marked for deletion leave, the others
are operated on, and a new client may come behind them. -/
structure PollEffect (m m' : Manager) : Prop where
  slots : ∃ (f : Slot → Option Slot) (new : List Slot), m'.slots = m.slots.filterMap f ++ new ∧
    (∀ s, f s = none ↔ s.conn.state.delete = true) ∧ (∀ s s', f s = some s' → SlotRun s s') ∧
    (new = [] ∧ m'.nextRef = m.nextRef ∨
      ∃ s, new = [s] ∧ FreshClient m s ∧ m'.nextRef = m.nextRef + 1)

theorem closeSocket_of_freshClient {m : Manager} {s : Slot} (h : FreshClient m s) :
    (closeSocket s).1 = s := by
  have hin : closeDirection s.conn.inState = s.conn.inState := by rw [h.inState]; rfl
  have hout : closeDirection s.conn.outState = s.conn.outState := by rw [h.outState]; rfl
  rcases closeSocket_cases s with ⟨-, h'⟩ | ⟨-, hclose, -⟩ | ⟨-, -, h'⟩
  · exact h'
  · simp [shouldCloseSocket, h.state, h.inState, shouldClose, isAlive] at hclose
  · rw [h', Slot.shutDirections, hin, hout]

theorem acceptSocket_slots {malloc : Malloc} {m m' : Manager} {socket : ℤ} {own : ℕ}
    (h : acceptSocket malloc m socket own = .ok m') :
    m'.acceptor = m.acceptor ∧ (m'.slots = m.slots ∧ m'.nextRef = m.nextRef ∨
      ∃ s, m'.slots = m.slots ++ [s] ∧ FreshClient m s ∧ m'.nextRef = m.nextRef + 1) := by
  unfold acceptSocket makeConnection cmAddConnection at h
  split_ifs at h <;> simp only [Except.ok.injEq] at h
  · subst h
    exact ⟨rfl, .inl ⟨rfl, rfl⟩⟩
  · subst h
    exact ⟨rfl, .inr ⟨_, rfl, ⟨rfl, rfl, rfl, rfl, rfl, rfl, rfl, rfl⟩, rfl⟩⟩

theorem acceptConnection_slots {env : AcceptEnv} {m m' : Manager}
    (h : acceptConnection env m = .ok m') :
    m'.slots = m.slots ∧ m'.nextRef = m.nextRef ∨
      ∃ s, m'.slots = m.slots ++ [s] ∧ FreshClient m s ∧ m'.nextRef = m.nextRef + 1 := by
  unfold acceptConnection at h
  split_ifs at h
  · obtain rfl := Except.ok.inj h
    exact .inl ⟨rfl, rfl⟩
  · split at h
    · exact (acceptSocket_slots h).2.imp id fun ⟨s, hs, hf, hn⟩ =>
        ⟨s, hs, ⟨hf.ref, hf.inc, hf.id, hf.state, hf.inState, hf.outState, hf.inBuf, hf.outBuf⟩, hn⟩
    · split_ifs at h
      · obtain rfl := Except.ok.inj h
        exact .inl ⟨rfl, rfl⟩
      · exact (acceptSocket_slots h).2

/-- The slots after the sockets have been served and closed: the old ones by themselves, the new
client untouched. -/
theorem slots_serveFirst {env : SocketEnv} {m : Manager} {old new : List Slot}
    (hslots : m.slots = old ++ new) (hnew : ∀ s ∈ new, ∃ m₀, FreshClient m₀ s) :
    (shrink (closeSockets (serveFirst env old.length m))).slots =
      old.filterMap (leaveSlot env) ++ new := by
  have hserved : (serveFirst env old.length m).slots =
      (old.map fun s => (serve env s).1) ++ new := by
    simp [serveFirst, eachSlot, hslots]
  rw [slots_shrink_closeSockets, hserved, List.filterMap_append, List.filterMap_map]
  congr 1
  have hkeep : ∀ s ∈ new, (if shouldDelete (closeSocket s).1.conn.state then none
      else some (closeSocket s).1) = some s := by
    intro s hs
    obtain ⟨m₀, hfresh⟩ := hnew s hs
    rw [closeSocket_of_freshClient hfresh, hfresh.state]
    rfl
  rw [List.filterMap_congr hkeep, List.filterMap_some]

/-- The slots of the connections that were there before `cm_poll`, at its end. -/
def pollTurn (env : SocketEnv) (ready : ℕ → PollMask) (s : Slot) : Option Slot :=
  (enterSlot s).bind fun s => leaveSlot env (pollSlot ready s)

theorem pollTurn_eq_none_iff (env : SocketEnv) (ready : ℕ → PollMask) (s : Slot) :
    pollTurn env ready s = none ↔ s.conn.state.delete = true := by
  rw [← enterSlot_eq_none_iff]
  unfold pollTurn
  cases h : enterSlot s with
  | none => exact ⟨fun _ => rfl, fun _ => rfl⟩
  | some t =>
    refine ⟨fun hnone => ?_, fun hnone => absurd hnone (Option.some_ne_none t)⟩
    have hleave : leaveSlot env (pollSlot ready t) = none := hnone
    have hdel := leaveSlot_eq_none hleave
    change t.conn.state.delete = true at hdel
    rw [(enterSlot_slotRun h).keeps.delete, ← enterSlot_eq_none_iff, h] at hdel
    exact absurd hdel (Option.some_ne_none t)

theorem pollTurn_slotRun {env : SocketEnv} {ready : ℕ → PollMask} {s s' : Slot}
    (h : pollTurn env ready s = some s') : SlotRun s s' := by
  obtain ⟨t, ht, hs'⟩ := Option.bind_eq_some_iff.mp h
  exact (enterSlot_slotRun ht).trans (.head (.poll ready t) (leaveSlot_slotRun hs'))

/-- What a call leaves of the slots that were there. -/
theorem slots_leave {env : SocketEnv} {ready : ℕ → PollMask} {m m' : Manager} (new : List Slot)
    (hslots : m'.slots = (pollAll ready (beforePoll m)).slots ++ new)
    (hnew : ∀ s ∈ new, ∃ m₀, FreshClient m₀ s) :
    (shrink (closeSockets (serveFirst env (beforePoll m).slots.length m'))).slots =
      m.slots.filterMap (pollTurn env ready) ++ new := by
  have hlen : (beforePoll m).slots.length = (pollAll ready (beforePoll m)).slots.length := by
    rw [slots_pollAll, List.length_map]
  rw [hlen, slots_serveFirst hslots hnew]
  rw [slots_pollAll, slots_beforePoll, List.filterMap_map, List.filterMap_filterMap]
  rfl

/-- The end of `cm_poll`, from the manager on which a client may have been accepted. -/
theorem serve_effect {env : SocketEnv} {ready : ℕ → PollMask} {m m' : Manager} (new : List Slot)
    (hslots : m'.slots = (pollAll ready (beforePoll m)).slots ++ new)
    (hnew : new = [] ∧ m'.nextRef = m.nextRef ∨
      ∃ s, new = [s] ∧ FreshClient m s ∧ m'.nextRef = m.nextRef + 1) :
    PollEffect m (shrink (closeSockets (serveFirst env (beforePoll m).slots.length m'))) := by
  have hfresh : ∀ s ∈ new, ∃ m₀, FreshClient m₀ s := by
    rcases hnew with ⟨rfl, -⟩ | ⟨s, rfl, hf, -⟩
    · simp
    · simpa using ⟨m, hf⟩
  exact ⟨pollTurn env ready, new, slots_leave new hslots hfresh, pollTurn_eq_none_iff env ready,
    fun s s' => pollTurn_slotRun, hnew⟩

/-- **What `cm_poll` does to the slots.** -/
theorem cmPoll_effect {env : PollEnv} {m m' : Manager} {cause : CloseCause}
    (h : cmPoll env m = .ok (m', cause)) : PollEffect m m' := by
  unfold cmPoll at h
  dsimp only at h
  split at h
  · obtain ⟨rfl, -⟩ := Prod.mk.inj (Except.ok.inj h)
    refine ⟨enterSlot, [], ?_, enterSlot_eq_none_iff, fun s s' => enterSlot_slotRun,
      .inl ⟨rfl, rfl⟩⟩
    rw [slots_beforePoll, List.append_nil]
  · rename_i ready hready
    split_ifs at h
    · obtain ⟨rfl, -⟩ := Prod.mk.inj (Except.ok.inj h)
      refine ⟨fun s => (enterSlot s).map (pollSlot ready), [], ?_, fun s => ?_, fun s s' hs => ?_,
        .inl ⟨rfl, rfl⟩⟩
      · rw [slots_pollAll, slots_beforePoll, List.map_filterMap, List.append_nil]
      · rw [Option.map_eq_none_iff, enterSlot_eq_none_iff]
      · obtain ⟨t, ht, rfl⟩ := Option.map_eq_some_iff.mp hs
        exact .tail (enterSlot_slotRun ht) (.poll ready t)
    · cases haccept : acceptConnection env.accept (pollAll ready (beforePoll m)) with
      | error fault => simp [haccept, bind, Except.bind] at h
      | ok m₁ =>
        simp only [haccept, bind, Except.bind] at h
        obtain ⟨rfl, -⟩ := Prod.mk.inj (Except.ok.inj h)
        rcases acceptConnection_slots haccept with ⟨hs, hn⟩ | ⟨s, hs, hf, hn⟩
        · exact serve_effect [] (by rw [hs, List.append_nil]) (.inl ⟨rfl, hn⟩)
        · exact serve_effect [s] hs (.inr ⟨s, rfl,
            ⟨hf.ref, hf.inc, hf.id, hf.state, hf.inState, hf.outState, hf.inBuf, hf.outBuf⟩, hn⟩)
    · obtain ⟨rfl, -⟩ := Prod.mk.inj (Except.ok.inj h)
      exact serve_effect [] (List.append_nil _).symm (.inl ⟨rfl, rfl⟩)

end OsTasks.PortForwarding
