import OsTasks.PortForwarding.Crowd
import OsTasks.PortForwarding.Lifecycle
import OsTasks.PortForwarding.Receipt
import OsTasks.PortForwarding.Sending

/-!
# The gate before the answer of the peer

A client that has been accepted is announced by `CMD_NEW` and stopped until the peer answers by
`CMD_ACK`. `receive` and `transmit` leave a stopped connection alone; `pump_transfer` does not look
at the bit. The gate is closed only if there was nothing to take from the connection when it was
stopped: until then its socket is read, which can be as long as no id is free or the queue is full.

## Main definitions

* `Acknowledged`: `CMD_ACK` has been handled for a connection.
* `HandshakeGate`: no data is encoded for a connection before that.
* `PumpEvent.AnnouncesEmpty`: a connection has no input for the tunnel when it is announced.

## Main results

* `handshake_gate`: the gate holds in every run that announces connections without input only.
-/

namespace OsTasks.PortForwarding

variable {conns : Conns} {c c' : Controller} {s s' : Slot} {trace trace' : List PumpEvent}

/-! ### The gate -/

/-- `CMD_ACK` is handled for the connection at an address. -/
def PumpEvent.Acknowledges (ref : ℕ) : PumpEvent → Prop
  | .handled command (some s) _ _ => command.cmd = cmdAck ∧ s.ref = ref
  | _ => False

/-- `CMD_ACK` has been handled for the connection at an address. -/
def Acknowledged (ref : ℕ) (trace : List PumpEvent) : Prop := ∃ e ∈ trace, e.Acknowledges ref

/-- `pump_transfer` takes nothing from the connection: its input is empty, or has ended. -/
def NothingToTake (c : Connection) : Prop := c.inBuf.length = 0 ∨ isAlive c.inState = false

instance (c : Connection) : Decidable (NothingToTake c) :=
  inferInstanceAs (Decidable (_ ∨ _))

/-- `CMD_NEW` is queued for a connection from which `pump_transfer` would take nothing. -/
def PumpEvent.AnnouncesEmpty : PumpEvent → Prop
  | .queued s cmd => cmd = cmdNew → NothingToTake s.conn
  | _ => True

instance : DecidablePred PumpEvent.AnnouncesEmpty
  | .queued s cmd => inferInstanceAs (Decidable (cmd = cmdNew → NothingToTake s.conn))
  | .received .. | .handled .. | .delivered .. | .sent .. | .dropped .. | .encoded .. =>
      isTrue trivial

/-- An accepted connection that has not been acknowledged is still to be announced, or stopped with
nothing to take from it. -/
def Gated (trace : List PumpEvent) (s : Slot) : Prop :=
  s.ref ≠ 0 → s.Accepted → Acknowledged s.ref trace ∨ s.conn.state.new = true ∨
    s.conn.state.stopped = true ∧ NothingToTake s.conn

/-- A data frame is encoded for an accepted connection only after `CMD_ACK` has been handled for it,
and until then the connection is still to be announced, or stopped with nothing to take from it. -/
structure HandshakeGate (c : Controller) : Prop where
  encoded : ∀ s bytes before, .encoded s bytes :: before <:+ c.trace → s.ref ≠ 0 → s.Accepted →
    Acknowledged s.ref before
  waiting : ∀ s ∈ c.slots, Gated c.trace s

theorem Acknowledged.mono {ref : ℕ} (hsub : trace ⊆ trace') (h : Acknowledged ref trace) :
    Acknowledged ref trace' :=
  h.imp fun _ he => ⟨hsub he.1, he.2⟩

/-- A connection that keeps what the gate depends on. -/
structure GateKeeps (s s' : Slot) : Prop where
  ref : s'.ref = s.ref
  inc : s'.inc = s.inc
  new : s'.conn.state.new = s.conn.state.new
  stopped : s.conn.state.stopped = true → s'.conn.state.stopped = true
  nothing : s.conn.state.stopped = true → NothingToTake s.conn → NothingToTake s'.conn

theorem GateKeeps.refl (s : Slot) : GateKeeps s s := ⟨rfl, rfl, rfl, id, fun _ => id⟩

theorem Gated.keeps (h : Gated trace s) (hs : GateKeeps s s') (hsub : trace ⊆ trace') :
    Gated trace' s' := by
  intro href hacc
  rw [hs.ref] at href ⊢
  rw [hs.new]
  have hacc' : s.Accepted := hs.inc.symm.trans (hacc.trans hs.ref)
  refine (h href hacc').imp (Acknowledged.mono hsub) (Or.imp_right fun hstop => ?_)
  exact ⟨hs.stopped hstop.1, hs.nothing hstop.1 hstop.2⟩

/-! ### Polling and sorting -/

theorem gateKeeps_of_conn (href : s'.ref = s.ref) (hinc : s'.inc = s.inc)
    (hstate : s'.conn.state.new = s.conn.state.new ∧
      s'.conn.state.stopped = s.conn.state.stopped)
    (hlen : s'.conn.inBuf.length ≤ s.conn.inBuf.length)
    (hdead : isAlive s.conn.inState = false → isAlive s'.conn.inState = false) :
    GateKeeps s s' :=
  ⟨href, hinc, hstate.1, hstate.2.trans, fun _ =>
    Or.imp (fun hzero => Nat.le_zero.mp (hlen.trans_eq hzero)) hdead⟩

theorem isAlive_closeDirection {state : ConnState} (h : isAlive state = false) :
    isAlive (closeDirection state) = false := by
  rw [not_isAlive_iff] at h ⊢
  rw [shouldClose_closeDirection, closed_closeDirection]
  exact h.imp_right .inl

/-- The manager reads nothing from a stopped connection. -/
theorem SlotOp.gateKeeps (h : SlotOp s s') : GateKeeps s s' := by
  have hkeeps := h.keeps
  cases h with
  | close =>
    rcases closeSocket_cases s with ⟨-, h'⟩ | ⟨-, -, h'⟩ | ⟨-, -, h'⟩ <;> rw [h'] at hkeeps ⊢
    · exact .refl s
    · exact gateKeeps_of_conn rfl rfl ⟨rfl, rfl⟩ (Nat.le_refl _) fun _ => by
        rw [not_isAlive_iff]
        exact .inr rfl
    · exact gateKeeps_of_conn rfl rfl ⟨rfl, rfl⟩ (Nat.le_refl _) isAlive_closeDirection
  | arm =>
    exact gateKeeps_of_conn hkeeps.ref hkeeps.inc ⟨hkeeps.new, hkeeps.stopped⟩
      (by rw [conn_armOutput]) (by rw [conn_armOutput]; exact id)
  | poll => exact gateKeeps_of_conn rfl rfl ⟨rfl, rfl⟩ (Nat.le_refl _) id
  | receive r _ halive =>
    refine ⟨hkeeps.ref, hkeeps.inc, hkeeps.new, hkeeps.stopped.trans, fun hstop hnothing => ?_⟩
    rcases receive_cases r s with h' | ⟨_, _, -, -, hnot, -⟩
    · rwa [h']
    · simp [hnot] at hstop
  | transmit r _ halive =>
    refine ⟨hkeeps.ref, hkeeps.inc, hkeeps.new, hkeeps.stopped.trans, fun hstop hnothing => ?_⟩
    rcases transmit_cases r s with h' | ⟨_, _, -, -, hnot, -⟩
    · rwa [h']
    · simp [hnot] at hstop

theorem HandshakeGate.poll {env : PollEnv} {m : Manager} {cause : CloseCause}
    (h : HandshakeGate c) (hpoll : cmPoll env c.manager = .ok (m, cause)) :
    HandshakeGate { c with manager := m } where
  encoded := h.encoded
  waiting s' hs' := by
    rcases mem_slots_poll hpoll hs' with ⟨s, hs, -, hrun⟩ | ⟨hfresh, -⟩
    · exact hrun.keep (fun hop hgated => hgated.keeps hop.gateKeeps (List.Subset.refl _))
        (h.waiting s hs)
    · exact fun _ _ => .inr (.inl (by rw [hfresh.state]))

theorem HandshakeGate.sort (h : HandshakeGate c) (hwf : WellFormed c) : HandshakeGate c.sort where
  encoded := h.encoded
  waiting s' hs' := by
    obtain ⟨s, hs, rfl | ⟨-, id, -, rfl⟩⟩ := hwf.mem_slots_sort hs'
    · exact h.waiting _ hs
    · exact (h.waiting s hs).keeps ⟨rfl, rfl, rfl, fun h => h, fun _ h => h⟩ (List.Subset.refl _)

/-! ### Announcing -/

/-- What the rest of a turn of `handle_state_changes` leaves alone. -/
structure TurnExtends (t t' : Turn) : Prop where
  keeps : GateKeeps t.slot t'.slot
  events : ∃ more, t'.events = more ++ t.events ∧ ∀ e ∈ more, ∃ s cmd, e = .queued s cmd

theorem TurnExtends.refl (t : Turn) : TurnExtends t t :=
  ⟨.refl t.slot, [], rfl, fun _ he => absurd he List.not_mem_nil⟩

theorem GateKeeps.trans {u : Slot} (h : GateKeeps s s') (h' : GateKeeps s' u) : GateKeeps s u where
  ref := h'.ref.trans h.ref
  inc := h'.inc.trans h.inc
  new := h'.new.trans h.new
  stopped hstop := h'.stopped (h.stopped hstop)
  nothing hstop hnothing := h'.nothing (h.stopped hstop) (h.nothing hstop hnothing)

theorem TurnExtends.send {t t' : Turn} (h : TurnExtends t t') (cmd : UInt8)
    {change : Connection → Connection}
    (hchange : GateKeeps t'.slot { t'.slot with conn := change t'.slot.conn }) :
    TurnExtends t (t'.send cmd change) := by
  unfold Turn.send
  split
  · exact ⟨h.keeps, h.events⟩
  · obtain ⟨more, hevents, hmore⟩ := h.events
    refine ⟨h.keeps.trans hchange, .queued t'.slot cmd :: more, ?_, ?_⟩
    · rw [List.cons_append, ← hevents]
    · exact List.forall_mem_cons.mpr ⟨⟨_, _, rfl⟩, hmore⟩

/-- After the announcement of the connection itself the turn only closes. -/
theorem stateTurn_extends (s : Slot) (queue : CmdQueue) :
    TurnExtends (announceNew { slot := s, queue := queue }) (stateTurn s queue) := by
  rw [stateTurn]
  generalize announceNew { slot := s, queue := queue } = t
  have hdelete (state : ConnState) : isAlive { state with delete := true } = false := by
    rw [not_isAlive_iff, shouldClose_iff]
    exact .inl (.inr rfl)
  have hin : TurnExtends t (announceCloseIn t) := by
    unfold announceCloseIn
    split
    · exact (TurnExtends.refl t).send _
        (gateKeeps_of_conn rfl rfl ⟨rfl, rfl⟩ (Nat.le_refl _) fun _ => hdelete _)
    · exact .refl t
  dsimp only
  split_ifs
  · exact .refl t
  · have hsend : TurnExtends t (t.send cmdClose fun c =>
      { c with state := { c.state with delete := true } }) :=
      (TurnExtends.refl t).send _ (gateKeeps_of_conn rfl rfl ⟨rfl, rfl⟩ (Nat.le_refl _) id)
    exact ⟨hsend.keeps, hsend.events⟩
  · exact hin
  · unfold announceCloseOut
    split
    · exact hin.send _ (gateKeeps_of_conn rfl rfl ⟨rfl, rfl⟩ (Nat.le_refl _) id)
    · exact hin

theorem again_of_stateTurn {queue : CmdQueue} (h : (stateTurn s queue).again = false) :
    (announceNew { slot := s, queue := queue }).again = false := by
  by_contra hagain
  rw [stateTurn] at h
  dsimp only at h
  rw [if_pos (Bool.eq_true_of_not_eq_false hagain)] at h
  exact hagain h

/-- A turn that comes to its end has announced the connection. -/
theorem new_stateTurn {queue : CmdQueue}
    (h : s.conn.state.new = false ∨ (stateTurn s queue).again = false) :
    (stateTurn s queue).slot.conn.state.new = false := by
  rw [(stateTurn_extends s queue).keeps.new]
  replace h := h.imp_right again_of_stateTurn
  revert h
  unfold announceNew isNewConnection
  split_ifs with hnew
  · unfold Turn.send
    split
    · exact fun h => h.elim id fun htrue => absurd htrue Bool.noConfusion
    · exact fun _ => rfl
  · exact fun _ => Bool.eq_false_of_not_eq_true hnew

/-- A turn of `handle_state_changes`, seen from the gate. -/
structure GateTurn (trace : List PumpEvent) (s : Slot) (t : Turn) : Prop where
  ref : t.slot.ref = s.ref
  inc : t.slot.inc = s.inc
  gated : Gated (t.events ++ trace) t.slot
  events : ∀ e ∈ t.events, ∃ s cmd, e = .queued s cmd

theorem GateTurn.extends {t t' : Turn} (h : GateTurn trace s t) (ht : TurnExtends t t') :
    GateTurn trace s t' := by
  obtain ⟨more, hevents, hmore⟩ := ht.events
  refine ⟨ht.keeps.ref.trans h.ref, ht.keeps.inc.trans h.inc, h.gated.keeps ht.keeps ?_, ?_⟩
  · rw [hevents, List.append_assoc]
    exact List.subset_append_right _ _
  · rw [hevents]
    exact fun e he => (List.mem_append.mp he).elim (hmore e) (h.events e)

/-- A connection that is announced is stopped, and closes the gate if there is nothing to take. -/
theorem gateTurn_stateTurn (h : Gated trace s) {queue : CmdQueue}
    (hempty : ∀ e ∈ (stateTurn s queue).events, e.AnnouncesEmpty) :
    GateTurn trace s (stateTurn s queue) := by
  have hextends := stateTurn_extends s queue
  obtain ⟨more, hevents, -⟩ := hextends.events
  replace hempty : ∀ e ∈ (announceNew { slot := s, queue := queue }).events, e.AnnouncesEmpty :=
    fun e he => hempty e (hevents ▸ List.mem_append_right _ he)
  refine GateTurn.extends ?_ hextends
  have hstart : GateTurn trace s { slot := s, queue := queue } :=
    ⟨rfl, rfl, h, fun _ he => absurd he List.not_mem_nil⟩
  revert hempty
  unfold announceNew
  split
  · unfold Turn.send
    split
    · exact fun _ => ⟨rfl, rfl, h, fun _ he => absurd he List.not_mem_nil⟩
    · intro hempty
      refine ⟨rfl, rfl, fun href hacc => .inr (.inr ⟨rfl, ?_⟩), fun e he => ?_⟩
      · exact hempty _ List.mem_cons_self rfl
      · exact ⟨s, cmdNew, List.mem_singleton.mp he⟩
  · exact fun _ => hstart

/-- An event behind others that are different from it. -/
theorem suffix_of_suffix_append {e : PumpEvent} {before events : List PumpEvent}
    (hne : e ∉ events) (h : e :: before <:+ events ++ trace) : e :: before <:+ trace := by
  induction events with
  | nil => exact h
  | cons e' events ih =>
    rw [List.mem_cons, not_or] at hne
    rcases List.suffix_cons_iff.mp h with heq | hsuffix
    · exact absurd (List.cons.inj heq).1 hne.1
    · exact ih hne.2 hsuffix

theorem HandshakeGate.apply (h : HandshakeGate c) (hnd : (c.slots.map Slot.ref).Nodup)
    (hs : s ∈ c.slots) {t : Turn} (ht : GateTurn c.trace s t) : HandshakeGate (c.apply s t) where
  encoded u bytes before hsuffix := by
    refine h.encoded u bytes before (suffix_of_suffix_append (fun hmem => ?_) hsuffix)
    obtain ⟨_, _, heq⟩ := ht.events _ hmem
    cases heq
  waiting u' hu' := by
    obtain ⟨u, hu, rfl⟩ := List.mem_map.mp hu'
    split_ifs with href
    · obtain rfl := eq_of_ref_eq hnd hu hs href
      exact ht.gated.keeps ⟨ht.ref.symm, ht.inc.symm, rfl, id, fun _ => id⟩ (List.Subset.refl _)
    · exact (h.waiting u hu).keeps (.refl u) (List.subset_append_right _ _)

theorem stateLoop_trace_subset (ids : List ℕ) (conns : Conns) (c : Controller) :
    c.trace ⊆ (stateLoop ids conns c).2.1.trace := by
  induction ids generalizing conns c with
  | nil => exact List.Subset.refl _
  | cons i ids ih =>
    rw [stateLoop]
    cases lookup c.slots conns i with
    | none => exact ih conns c
    | some s =>
      have happly : c.trace ⊆ (c.apply s (stateTurn s c.pump.cmdQueue)).trace :=
        List.subset_append_right _ _
      dsimp only
      split_ifs
      · exact happly
      all_goals exact List.Subset.trans happly (ih _ _)

/-- **Announcing.** The loop of `handle_state_changes` keeps the gate, if it announces connections
only from which there is nothing to take. -/
theorem stateLoop_gate (ids : List ℕ) (h : HandshakeGate c) (hnd : (c.slots.map Slot.ref).Nodup)
    (hempty : ∀ e ∈ (stateLoop ids conns c).2.1.trace, e.AnnouncesEmpty) :
    HandshakeGate (stateLoop ids conns c).2.1 := by
  induction ids generalizing conns c with
  | nil => exact h
  | cons i ids ih =>
    revert hempty
    rw [stateLoop]
    cases hs : lookup c.slots conns i with
    | none => exact ih h hnd
    | some s =>
      have hmem := (lookup_eq_some hs).1
      have happly (hturn : ∀ e ∈ (stateTurn s c.pump.cmdQueue).events, e.AnnouncesEmpty) :
          HandshakeGate (c.apply s (stateTurn s c.pump.cmdQueue)) :=
        h.apply hnd hmem (gateTurn_stateTurn (h.waiting s hmem) hturn)
      have hnd' := (map_ref_apply c s (stateTurn s c.pump.cmdQueue)).symm ▸ hnd
      dsimp only
      split_ifs
      · exact fun hempty => happly fun e he => hempty e (List.mem_append_left _ he)
      all_goals
        intro hempty
        refine ih (happly fun e he => hempty e ?_) hnd' hempty
        exact stateLoop_trace_subset _ _ _ (List.mem_append_left _ he)

/-! ### Entering the pump -/

/-- The connection at an address is not to be announced any more. -/
def Told (ref : ℕ) (slots : List Slot) : Prop :=
  ∀ s ∈ slots, s.ref = ref → s.conn.state.new = false

theorem Told.apply {ref : ℕ} (h : Told ref c.slots) (hs : s ∈ c.slots) :
    Told ref (c.apply s (stateTurn s c.pump.cmdQueue)).slots := by
  intro u' hu' href
  obtain ⟨u, hu, rfl⟩ := List.mem_map.mp hu'
  split_ifs at href ⊢ with hsame
  · exact new_stateTurn (.inl (h s hs (hsame.symm.trans href)))
  · exact h u hu href

theorem Told.stateLoop {ref : ℕ} (ids : List ℕ) (h : Told ref c.slots) :
    Told ref (stateLoop ids conns c).2.1.slots := by
  induction ids generalizing conns c with
  | nil => exact h
  | cons i ids ih =>
    rw [PortForwarding.stateLoop]
    cases hs : lookup c.slots conns i with
    | none => exact ih h
    | some s =>
      have happly := h.apply (lookup_eq_some hs).1
      dsimp only
      split_ifs
      · exact happly
      all_goals exact ih happly

/-- When the loop comes to its end, it has announced all connections it has met, and the array
points to no others. -/
theorem stateLoop_told (ids : List ℕ) (hok : (stateLoop ids conns c).1 = .ok) :
    (∀ i ref, (stateLoop ids conns c).2.2 i = some ref → conns i = some ref) ∧
      ∀ i ∈ ids, ∀ ref, conns i = some ref → Told ref (stateLoop ids conns c).2.1.slots := by
  induction ids generalizing conns c with
  | nil => exact ⟨fun _ _ h => h, fun _ hi => absurd hi List.not_mem_nil⟩
  | cons i ids ih =>
    revert hok
    rw [stateLoop]
    cases hs : lookup c.slots conns i with
    | none =>
      intro hok
      obtain ⟨hsub, htold⟩ := ih hok
      refine ⟨hsub, List.forall_mem_cons.mpr ⟨fun ref href => ?_, htold⟩⟩
      refine Told.stateLoop ids fun s hmem hsref => ?_
      rw [lookup, href, Option.bind_some, findSlot, List.find?_eq_none] at hs
      exact absurd (beq_iff_eq.mpr hsref) (hs s hmem)
    | some s =>
      obtain ⟨hmem, hconns⟩ := lookup_eq_some hs
      dsimp only
      split_ifs with hagain hclosed
      · exact fun hok => absurd hok (by decide)
      all_goals
        intro hok
        obtain ⟨hsub, htold⟩ := ih hok
        have hfirst (ref : ℕ) (href : conns i = some ref) (conns' : Conns) : Told ref
            (stateLoop ids conns' (c.apply s (stateTurn s c.pump.cmdQueue))).2.1.slots := by
          obtain rfl := Option.some.inj (hconns.symm.trans href)
          refine Told.stateLoop ids fun u' hu' husref => ?_
          obtain ⟨u, hu, rfl⟩ := List.mem_map.mp hu'
          split_ifs at husref ⊢ with hsame
          · exact new_stateTurn (.inr (Bool.eq_false_of_not_eq_true hagain))
          · exact absurd husref hsame
      · have hkeep (j ref : ℕ) (h : Function.update conns i none j = some ref) :
            conns j = some ref := by
          by_cases hj : j = i
          · rw [hj, Function.update_self] at h
            exact absurd h.symm (Option.some_ne_none ref)
          · rwa [Function.update_of_ne hj] at h
        refine ⟨fun j ref h => hkeep j ref (hsub j ref h), fun j hj ref href => ?_⟩
        by_cases hji : j = i
        · exact hfirst ref (hji ▸ href) _
        · exact htold j (List.mem_of_ne_of_mem hji hj) ref
            ((Function.update_of_ne hji _ _).trans href)
      · exact ⟨hsub, List.forall_mem_cons.mpr ⟨fun ref href => hfirst ref href _, htold⟩⟩

/-! ### The pump -/

/-- The gate within `pump_transfer`, where the array points to announced connections only. -/
structure PumpGate (conns : Conns) (c : Controller) : Prop extends HandshakeGate c where
  told : ∀ i < 255, ∀ ref, conns (i + 1) = some ref → Told ref c.slots

/-- A change of an object that the gate does not depend on. -/
theorem PumpGate.modify (h : PumpGate conns c) (ref : ℕ) {f : Connection → Connection}
    (hf : ∀ s ∈ c.slots, s.ref = ref → GateKeeps s { s with conn := f s.conn }) :
    PumpGate conns (c.modify ref f) := by
  have hmodified : ∀ s' ∈ (c.modify ref f).slots, ∃ s ∈ c.slots, GateKeeps s s' := by
    intro s' hs'
    obtain ⟨s, hs, rfl⟩ := List.mem_map.mp hs'
    refine ⟨s, hs, ?_⟩
    split_ifs with href
    · exact hf s hs href
    · exact .refl s
  refine ⟨⟨h.encoded, fun s' hs' => ?_⟩, fun i hi r hr s' hs' href => ?_⟩
  · obtain ⟨s, hs, hkeeps⟩ := hmodified s' hs'
    exact (h.waiting s hs).keeps hkeeps (List.Subset.refl _)
  · obtain ⟨s, hs, hkeeps⟩ := hmodified s' hs'
    exact hkeeps.new.trans (h.told i hi r hr s hs (hkeeps.ref.symm.trans href))

/-- An event that is not about encoded data. -/
theorem PumpGate.note (h : PumpGate conns c) {e : PumpEvent}
    (he : ∀ s bytes, e ≠ .encoded s bytes) :
    PumpGate conns (c.note e) where
  encoded s bytes before hsuffix :=
    h.encoded s bytes before
      (suffix_of_suffix_append (fun hmem => he s bytes (List.mem_singleton.mp hmem).symm) hsuffix)
  waiting s hs := (h.waiting s hs).keeps (.refl s) (List.subset_cons_self _ _)
  told := h.told

theorem BufferStep.gateKeeps (h : BufferStep s s')
    (hle : s'.conn.inBuf.length ≤ s.conn.inBuf.length) :
    GateKeeps s s' :=
  gateKeeps_of_conn h.ref h.inc ⟨by rw [h.state], by rw [h.state]⟩ hle fun hdead =>
    by rwa [h.inState]

/-- **Handling a command.** Only `CMD_ACK` opens the gate of a connection. -/
theorem PumpGate.onCommand (h : PumpGate conns c) (env : ConnectEnv) (cmd arg : UInt8) :
    PumpGate conns (onCommand env c ⟨cmd, arg, 0⟩) := by
  obtain ⟨opened, heff⟩ := onCommand_effect env c ⟨cmd, arg, 0⟩
  generalize PortForwarding.onCommand env c ⟨cmd, arg, 0⟩ = c' at heff
  have hencoded : ∀ s bytes before, .encoded s bytes :: before <:+ c'.trace → s.ref ≠ 0 →
      s.Accepted → Acknowledged s.ref before := by
    intro s bytes before hsuffix
    rw [heff.trace, List.suffix_cons_iff] at hsuffix
    exact h.encoded s bytes before (hsuffix.resolve_left fun heq => by cases heq)
  have hold : ∀ s ∈ c.slots, Gated c'.trace s := fun s hs =>
    (h.waiting s hs).keeps (.refl s) (heff.trace ▸ List.subset_cons_self _ _)
  rcases heff.slots with ⟨s, htarget, -, hslots, -⟩ |
    ⟨-, -, ⟨-, hslots, -⟩ | ⟨-, -, s, hslots, hfresh, -⟩⟩
  · have hnew : ∀ conn, (commandChange cmd conn).state.new = conn.state.new := by
      intro conn
      unfold commandChange
      split_ifs <;> rfl
    refine ⟨⟨hencoded, fun u' hu' => ?_⟩, fun i hi ref href u' hu' huref => ?_⟩
    all_goals
      rw [hslots] at hu'
      obtain ⟨u, hu, rfl⟩ := List.mem_map.mp hu'
      by_cases hus : u.ref = s.ref
    · rw [modifySlot_of_eq hus]
      by_cases hack : cmd = cmdAck
      · refine fun _ _ => .inl ⟨_, heff.trace ▸ List.mem_cons_self, ?_⟩
        rw [htarget]
        exact ⟨hack, hus.symm⟩
      · refine (hold u hu).keeps (gateKeeps_of_conn rfl rfl ⟨hnew _, ?_⟩ ?_ fun hdead => ?_)
          (List.Subset.refl _)
        · dsimp only
          unfold commandChange
          split_ifs <;> rfl
        · rw [inBuf_commandChange]
        · rw [not_isAlive_iff] at hdead ⊢
          dsimp only
          unfold commandChange
          split_ifs <;> first | exact hdead | exact .inl (by simp)
    · rw [modifySlot_of_ne hus]
      exact hold u hu
    · rw [modifySlot_of_eq hus] at huref ⊢
      exact (hnew _).trans (h.told i hi ref href u hu huref)
    · rw [modifySlot_of_ne hus] at huref ⊢
      exact h.told i hi ref href u hu huref
  · exact ⟨⟨hencoded, hslots ▸ hold⟩, hslots ▸ h.told⟩
  · refine ⟨⟨hencoded, fun u hu => ?_⟩, fun i hi ref href u hu huref => ?_⟩
    all_goals
      rw [hslots, List.mem_append, List.mem_singleton] at hu
      rcases hu with hu | rfl
    · exact hold u hu
    · exact fun href hacc => absurd (hacc.symm.trans hfresh.inc) href
    · exact h.told i hi ref href u hu huref
    · rw [hfresh.state]

/-- **Receiving from the tunnel.** -/
theorem PumpGate.recvFromTunnel {env : PumpEnv} (h : PumpGate conns c) (hready : PumpReady conns c)
    (hc : recvFromTunnel (PortForwarding.onCommand env.connect) env conns c = .ok c') :
    PumpGate conns c' ∧ PumpReady conns c' :=
  recvFromTunnel_induction
    (fun ref _ _ hf h => h.modify ref fun s hs href =>
      (hf s hs href).1.toBufferStep.gateKeeps (hf s hs href).1.unread)
    (fun he h => h.note fun s bytes heq => by subst heq; exact he)
    (fun _ h => ⟨⟨h.encoded, h.waiting⟩, h.told⟩)
    (fun cmd arg _ h => h.onCommand env.connect cmd arg)
    hready h hc

/-- Encoding one input that is not empty: the connection has been acknowledged. -/
theorem PumpGate.encodeTo (h : PumpGate conns c) (hnd : (c.slots.map Slot.ref).Nodup) {i : ℕ}
    (hi : i < 255) {tunnel : Slot} (hs : lookup c.slots conns (i + 1) = some s)
    (hin : isAlive s.conn.inState = true) :
    PumpGate conns (c.encodeTo s tunnel) := by
  obtain ⟨hmem, hconns⟩ := lookup_eq_some hs
  let r := encode s.conn.inBuf tunnel.conn.outBuf (toByte s.conn.id)
  have h₁ := h.modify s.ref (f := fun conn => { conn with inBuf := r.2.1 }) fun u hu href => by
    obtain rfl := eq_of_ref_eq hnd hu hmem href
    exact gateKeeps_of_conn rfl rfl ⟨rfl, rfl⟩ (length_encode_le ..) id
  have h₂ := h₁.modify tunnel.ref (f := fun conn => { conn with outBuf := r.2.2 }) fun u _ _ =>
    gateKeeps_of_conn rfl rfl ⟨rfl, rfl⟩ (Nat.le_refl _) id
  unfold Controller.encodeTo
  dsimp only
  split_ifs with hempty
  · exact h₂
  · refine ⟨⟨fun u bytes before hsuffix => ?_, fun u hu => ?_⟩, h₂.told⟩
    · rcases List.suffix_cons_iff.mp hsuffix with heq | hold
      · obtain ⟨hevent, hbefore⟩ := List.cons.inj heq
        obtain ⟨rfl, -⟩ := PumpEvent.encoded.inj hevent
        rw [hbefore]
        intro href hacc
        refine (h.waiting u hmem href hacc).resolve_right fun hwait => ?_
        rcases hwait with hnew | ⟨-, hzero | hdead⟩
        · exact Bool.false_ne_true ((h.told i hi _ hconns u hmem rfl).symm.trans hnew)
        · exact hempty ((bufEmpty_iff _).mpr hzero)
        · exact Bool.false_ne_true (hdead.symm.trans hin)
      · exact h₂.encoded u bytes before hold
    · exact (h₂.waiting u hu).keeps (.refl u) (List.subset_cons_self _ _)

theorem PumpGate.setQueue (h : PumpGate conns c) (q : CmdQueue) : PumpGate conns (c.setQueue q) :=
  ⟨⟨h.encoded, h.waiting⟩, h.told⟩

/-- **Sending** encodes data of acknowledged connections only. -/
theorem PumpGate.sendToTunnel (h : PumpGate conns c) (hready : PumpReady conns c) :
    PumpGate conns (sendToTunnel conns c) :=
  sendToTunnel_induction (P := PumpGate conns) (fun _ h => h.setQueue _)
    (fun tunnel _ h =>
      ((h.setQueue _).modify tunnel.ref fun _ _ _ =>
        gateKeeps_of_conn rfl rfl ⟨rfl, rfl⟩ (Nat.le_refl _) id).note
        fun _ _ => PumpEvent.noConfusion)
    (fun _ h => (h.setQueue _).note fun _ _ => PumpEvent.noConfusion)
    (fun hnd _ hi hs _ hin h => h.encodeTo hnd hi hs hin)
    (fun _ h => ⟨⟨h.encoded, h.waiting⟩, h.told⟩) hready.nodup hready.entries h

/-- **The pump keeps the gate.** -/
theorem PumpGate.pumpTransfer {env : PumpEnv} (h : PumpGate conns c) (hready : PumpReady conns c)
    (hc : pumpTransfer (PortForwarding.onCommand env.connect) env conns c = .ok c') :
    HandshakeGate c' := by
  obtain ⟨c₁, hrecv, rfl⟩ := exists_of_pumpTransfer hc
  obtain ⟨h₁, hready₁⟩ := h.recvFromTunnel hready hrecv
  exact (h₁.sendToTunnel hready₁).toHandshakeGate

/-! ### Runs -/

/-- **`handle_state_changes`.** When it leads to the pump, the array points to announced connections
only. -/
theorem HandshakeGate.handleStateChanges (h : HandshakeGate c) (hnd : (c.slots.map Slot.ref).Nodup)
    (conns : Conns) (tunnel : Slot)
    (hempty : ∀ e ∈ (handleStateChanges conns tunnel c).2.1.trace, e.AnnouncesEmpty) :
    HandshakeGate (handleStateChanges conns tunnel c).2.1 ∧
      ((handleStateChanges conns tunnel c).1 = .ok →
        PumpGate (handleStateChanges conns tunnel c).2.2
          (handleStateChanges conns tunnel c).2.1) := by
  revert hempty
  unfold PortForwarding.handleStateChanges
  split_ifs
  · exact fun _ => ⟨h, fun hok => absurd hok (by decide)⟩
  · intro hempty
    have hgate := stateLoop_gate _ h hnd hempty
    refine ⟨hgate, fun hok => ⟨hgate, fun i hi ref href => ?_⟩⟩
    obtain ⟨hsub, htold⟩ := stateLoop_told _ hok
    exact htold (i + 1) (List.mem_range'_1.mpr (by omega)) ref (hsub _ _ href)

theorem HandshakeGate.changes {next : CloseCause ⊕ Conns} (h : HandshakeGate c)
    (hnd : (c.slots.map Slot.ref).Nodup) (hc : changes conns c = .ok (c', next))
    (hempty : ∀ e ∈ c'.trace, e.AnnouncesEmpty) :
    HandshakeGate c' ∧ ∀ conns, next = .inr conns → PumpGate conns c' := by
  rcases changes_cases hc with ⟨rfl, cause, rfl⟩ | ⟨tunnel, -, rfl, hnext⟩
  · exact ⟨h, fun _ hn => absurd hn Sum.inl_ne_inr⟩
  · obtain ⟨hgate, hentry⟩ := h.handleStateChanges hnd conns tunnel hempty
    refine ⟨hgate, fun conns' hn => ?_⟩
    rcases hnext with ⟨cause, rfl⟩ | ⟨hok, rfl⟩
    · exact absurd hn Sum.inl_ne_inr
    · obtain rfl := Sum.inr.inj hn
      exact hentry hok

theorem HandshakeGate.beforeTransfer {env : PollEnv} {next : CloseCause ⊕ Conns}
    (h : HandshakeGate c)
    (hwf : WellFormed c) (hc : beforeTransfer env c = .ok (c', next))
    (hempty : ∀ e ∈ c'.trace, e.AnnouncesEmpty) :
    HandshakeGate c' ∧ ∀ conns, next = .inr conns → PumpGate conns c' := by
  obtain ⟨m, cause, hpoll, ⟨rfl, rfl⟩ | ⟨-, hchanges⟩⟩ := beforeTransfer_cases hc
  · exact ⟨h.poll hpoll, fun _ hn => absurd hn Sum.inl_ne_inr⟩
  · have hwf₁ := Step.wellFormed (.poll hpoll) hwf
    exact ((h.poll hpoll).sort hwf₁).changes hwf₁.sort.nodup hchanges hempty

/-- **An update keeps the gate**, if it announces connections only from which there is nothing to
take. -/
theorem HandshakeGate.update {env : Env} {cause : CloseCause} (h : HandshakeGate c)
    (hwf : WellFormed c) (hc : update env c = .ok (c', cause))
    (hempty : ∀ e ∈ c'.trace, e.AnnouncesEmpty) : HandshakeGate c' := by
  rcases update_cases hc with hbefore | ⟨c₁, conns, hbefore, hpump, -⟩
  · exact (h.beforeTransfer hwf hbefore hempty).1
  · obtain ⟨hrun, hconns⟩ := beforeTransfer_run hwf hbefore
    have hwf₁ := hrun.wellFormed hwf
    have hsub := (pumpTransfer_run hwf₁ (hconns conns rfl) hpump).trace_subset
    have hentry := (h.beforeTransfer hwf hbefore fun e he => hempty e (hsub he)).2 conns rfl
    exact hentry.pumpTransfer (hwf₁.pumpReady (hconns conns rfl)) hpump

variable {bufSize : ℕ+} {accepting : Bool}

theorem handshakeGate_startController (env : StartEnv) :
    HandshakeGate (startController env bufSize accepting) where
  encoded s bytes before h := absurd (List.suffix_nil.mp h) (List.cons_ne_nil _ _)
  waiting s hs href := by
    rw [List.mem_singleton.mp hs] at href
    exact absurd rfl href

theorem Reach.handshakeGate (h : Reach bufSize accepting c)
    (hempty : ∀ e ∈ c.trace, e.AnnouncesEmpty) : HandshakeGate c := by
  induction h with
  | start env => exact handshakeGate_startController env
  | update env h hc ih =>
    have hwf := (Visit.reach h).wellFormed
    have hsub := (update_run hwf hc).trace_subset
    exact (ih fun e he => hempty e (hsub he)).update hwf hc hempty

/-- **The gate before the answer of the peer.** In every state of a run in which `CMD_NEW` is queued
only for connections from which there is nothing to take, no data has been encoded for an accepted
connection before `CMD_ACK` was handled for it, and a connection that waits for its `CMD_ACK` is
still to be announced, or is stopped with nothing to take from it. -/
theorem handshake_gate (h : Visit bufSize true c) (hempty : ∀ e ∈ c.trace, e.AnnouncesEmpty) :
    HandshakeGate c := by
  cases h with
  | reach h => exact h.handshakeGate hempty
  | entry h hc =>
    have hwf := (Visit.reach h).wellFormed
    have hsub := (beforeTransfer_run hwf hc).1.trace_subset
    exact ((h.handshakeGate fun e he => hempty e (hsub he)).beforeTransfer hwf hc hempty).1
  | last h hc =>
    have hwf := (Visit.reach h).wellFormed
    have hsub := (update_run hwf hc).trace_subset
    exact (h.handshakeGate fun e he => hempty e (hsub he)).update hwf hc hempty

/-- The frames that have been encoded, the first one first. -/
def encodedFrames (events : List PumpEvent) : List (UInt8 × List UInt8) :=
  events.reverse.filterMap fun
    | .encoded s bytes => some (toByte s.conn.id, bytes)
    | _ => none

/-- A client connects and is acknowledged, and then something is read from it. -/
def acknowledgedClient : Option Controller :=
  updates [⟨clientComes 7, samplePump⟩, ⟨tunnelReads [0x7E, 0, 5, 1, 0x7E], samplePump⟩,
      ⟨clientReads [10], samplePump⟩]
    (startController sampleStart sampleBufSize true)

theorem handshake_gate_acknowledgedClient :
    ∃ c ∈ acknowledgedClient, encodedFrames c.trace = [(1, [10])] ∧ HandshakeGate c := by
  have hrun : acknowledgedClient.map (fun c =>
      (encodedFrames c.trace, decide (∀ e ∈ c.trace, e.AnnouncesEmpty))) =
        some ([(1, [10])], true) := by decide +kernel
  obtain ⟨c, hc, hvalues⟩ := Option.map_eq_some_iff.mp hrun
  obtain ⟨hframes, hempty⟩ := Prod.mk.inj hvalues
  exact ⟨c, hc, hframes,
    handshake_gate (.reach (reach_updates (.start sampleStart) hc)) (of_decide_eq_true hempty)⟩

/-- The gate does not hold for a client that gets its id after something has been read from it. -/
theorem not_handshakeGate_lateArrival : ∃ c,
    updates lateArrival (startController sampleStart sampleBufSize true) = some c ∧
      ¬ HandshakeGate c := by
  obtain ⟨c, s, bytes, before, hc, hencoded, href, haccepted, hcloses⟩ := late_run
  refine ⟨c, hc, fun hgate => ?_⟩
  obtain ⟨e, he, hack⟩ := hgate.encoded s bytes before hencoded href haccepted
  cases e with
  | handled command target stack opened =>
    cases target with
    | none => exact hack
    | some u => exact absurd ((hcloses _ _ _ _ he).symm.trans hack.1) (by decide)
  | _ => exact hack

end OsTasks.PortForwarding
