import Mathlib.Data.List.Perm.Subperm
import Mathlib.Data.List.Range
import OsTasks.PortForwarding.Evolution

/-!
# The free ids of an accepting endpoint

Ids are taken from the stack by `sort_connections` and given back in two places: by
`handle_state_changes` when a socket has closed, and by `on_command` when the peer closes. A closed
connection stays in the manager's list until the next `cm_poll`, and `on_command` finds it there, so
that both places can give back one id. `on_command` also opens a connection for a `CMD_NEW` that an
accepting endpoint receives, without taking its id from the stack.

## Main definitions

* `Accounted`: every id is either free or in use, once.
* `PumpEvent.Guarded`: the events that keep the account.
* `IdAccount`: the invariant, a permutation of all ids.

## Main results

* `accounted_of_guarded`: in a run with only such events every observed state is accounted for.
* `not_accounted_closedTwice`: a run in which an id is given back twice.
-/

namespace OsTasks.PortForwarding

/-! ### The account -/

/-- The id of a connection that is not marked for deletion. -/
def liveId (s : Slot) : Option ℤ :=
  if s.conn.state.delete = false ∧ 0 ≤ s.conn.id then some s.conn.id else none

/-- The ids of the connections that are not marked for deletion. -/
def liveIds (slots : List Slot) : List ℤ := slots.filterMap liveId

/-- The ids on the stack are different, none of them belongs to a live connection, live connections
have different ids, and together they are the ids `1..255`, the tunnel's id `0` apart. -/
structure Accounted (c : Controller) : Prop where
  freeNodup : c.freeIds.Nodup
  disjoint : ∀ s ∈ c.slots, s.conn.state.delete = false → s.conn.id ∉ c.freeIds
  liveNodup : (liveIds c.slots).Nodup
  cover : ∀ id : ℤ, (id ∈ c.freeIds ∨ id ∈ liveIds c.slots ∧ id ≠ 0) ↔ 1 ≤ id ∧ id ≤ 255

/-- The events that keep the account: no `CMD_CLOSE` is handled for a connection that is marked for
deletion while the stack is not full, and no `CMD_NEW` opens a connection. -/
def PumpEvent.Guarded : PumpEvent → Prop
  | .handled command (some s) stack _ =>
    command.cmd = cmdClose → s.conn.state.delete = false ∨ stack.length = maxStackSize
  | .handled _ none _ opened => opened = false
  | _ => True

instance : DecidablePred PumpEvent.Guarded
  | .handled _ (some _) _ _ => inferInstanceAs (Decidable (_ → _ ∨ _))
  | .handled _ none _ opened => inferInstanceAs (Decidable (opened = false))
  | .queued .. | .received .. | .delivered .. | .sent .. | .dropped .. | .encoded .. =>
      isTrue trivial

/-- A command that is about a connection, not about the tunnel. -/
def PumpEvent.AboutConnection : PumpEvent → Prop
  | .handled command _ _ _ => command.arg ≠ 0
  | _ => True

instance : DecidablePred PumpEvent.AboutConnection
  | .handled command _ _ _ => inferInstanceAs (Decidable (command.arg ≠ 0))
  | .queued .. | .received .. | .delivered .. | .sent .. | .dropped .. | .encoded .. =>
      isTrue trivial

/-! ### The invariant -/

/-- All ids, the tunnel's included. -/
def allIds : List ℤ := (List.range 256).map Int.ofNat

theorem mem_allIds (id : ℤ) : id ∈ allIds ↔ 0 ≤ id ∧ id ≤ 255 := by
  rw [allIds, List.mem_map]
  constructor
  · rintro ⟨n, hn, rfl⟩
    rw [List.mem_range] at hn
    rw [Int.ofNat_eq_natCast]
    omega
  · rintro ⟨h₀, h₁⟩
    exact ⟨id.toNat, List.mem_range.mpr (by omega), by rw [Int.ofNat_eq_natCast]; omega⟩

theorem nodup_allIds : allIds.Nodup := List.nodup_range.map Int.ofNat_injective

theorem length_allIds : allIds.length = 256 := by rw [allIds, List.length_map, List.length_range]

/-- The free ids and the ids in use are all ids, once each, and `0` is in use. -/
structure IdAccount (c : Controller) : Prop where
  accepting : c.accepting = true
  perm : (c.freeIds ++ liveIds c.slots).Perm allIds
  zero : (0 : ℤ) ∉ c.freeIds

variable {c c' : Controller}

theorem IdAccount.nodup (h : IdAccount c) : (c.freeIds ++ liveIds c.slots).Nodup :=
  h.perm.nodup_iff.mpr nodup_allIds

theorem liveId_eq_some_iff {s : Slot} {id : ℤ} :
    liveId s = some id ↔ s.conn.state.delete = false ∧ 0 ≤ s.conn.id ∧ s.conn.id = id := by
  unfold liveId
  split_ifs with h
  · simp [h]
  · simp only [false_iff]
    exact fun hlive => h ⟨hlive.1, hlive.2.1⟩

theorem mem_liveIds {slots : List Slot} {id : ℤ} :
    id ∈ liveIds slots ↔
      ∃ s ∈ slots, s.conn.state.delete = false ∧ 0 ≤ s.conn.id ∧ s.conn.id = id := by
  simp [liveIds, liveId_eq_some_iff]

theorem IdAccount.accounted (h : IdAccount c) : Accounted c where
  freeNodup := (List.nodup_append.mp h.nodup).1
  disjoint s hs hdel hfree := by
    have hrange := (mem_allIds _).mp (h.perm.subset (List.mem_append_left _ hfree))
    have hlive : s.conn.id ∈ liveIds c.slots := mem_liveIds.mpr ⟨s, hs, hdel, hrange.1, rfl⟩
    exact (List.nodup_append.mp h.nodup).2.2 _ hfree _ hlive rfl
  liveNodup := (List.nodup_append.mp h.nodup).2.1
  cover id := by
    have hmem := h.perm.mem_iff (a := id)
    rw [List.mem_append, mem_allIds] at hmem
    constructor
    · rintro (hfree | ⟨hlive, hne⟩)
      · have hne : id ≠ 0 := fun heq => h.zero (heq ▸ hfree)
        have := hmem.mp (.inl hfree)
        omega
      · have := hmem.mp (.inr hlive)
        omega
    · intro hrange
      exact (hmem.mpr (by omega)).imp (fun hfree => hfree) fun hlive => ⟨hlive, by omega⟩

/-- While a connection is in use the stack is not full. -/
theorem IdAccount.length_freeIds (h : IdAccount c) {s : Slot} (hs : s ∈ c.slots)
    (hdel : s.conn.state.delete = false) (hid : 1 ≤ s.conn.id) :
    c.freeIds.length ≠ maxStackSize := by
  have hlen := h.perm.length_eq
  rw [List.length_append, length_allIds] at hlen
  have hzero : (0 : ℤ) ∈ liveIds c.slots :=
    (List.mem_append.mp (h.perm.mem_iff.mpr ((mem_allIds 0).mpr (by decide)))).resolve_left h.zero
  have hlive : s.conn.id ∈ liveIds c.slots := mem_liveIds.mpr ⟨s, hs, hdel, by omega, rfl⟩
  -- the tunnel and the connection are two
  have htwo : 2 ≤ (liveIds c.slots).length := by
    have hsub : [0, s.conn.id].Subperm (liveIds c.slots) := by
      refine List.subperm_of_subset ?_ ?_
      · simp only [List.nodup_cons, List.mem_singleton, List.not_mem_nil, not_false_eq_true,
          List.nodup_nil, and_true]
        omega
      · intro i hi
        simp only [List.mem_cons, List.not_mem_nil, or_false] at hi
        rcases hi with rfl | rfl
        · exact hzero
        · exact hlive
    exact hsub.length_le
  rw [maxStackSize, maxConnections]
  omega

/-! ### The operations -/

/-- A connection that keeps its id and its mark keeps its place in the account. -/
theorem liveId_congr {s s' : Slot} (hid : s'.conn.id = s.conn.id)
    (hdel : s'.conn.state.delete = s.conn.state.delete) : liveId s' = liveId s := by
  rw [liveId, liveId, hid, hdel]

theorem liveIds_map {slots : List Slot} {g : Slot → Slot}
    (hg : ∀ s ∈ slots, liveId (g s) = liveId s) : liveIds (slots.map g) = liveIds slots := by
  rw [liveIds, List.filterMap_map]
  exact List.filterMap_congr hg

theorem liveIds_modifySlot {slots : List Slot} (hnd : (slots.map Slot.ref).Nodup) {s : Slot}
    (hs : s ∈ slots) {f : Connection → Connection}
    (hf : liveId { s with conn := f s.conn } = liveId s) :
    liveIds (slots.map (modifySlot s.ref f)) = liveIds slots :=
  liveIds_map fun _ ht =>
    modifySlot_rel hnd hs (P := fun t t' => liveId t' = liveId t) hf (fun _ _ _ => rfl) ht

/-- Polling removes connections that are not live, and adds at most one without an id. -/
theorem liveIds_poll {env : PollEnv} {m m' : Manager} {cause : CloseCause}
    (hpoll : cmPoll env m = .ok (m', cause)) : liveIds m'.slots = liveIds m.slots := by
  obtain ⟨f, new, hslots, hnone, hrun, hnew⟩ := cmPoll_effect hpoll
  have hclients : liveIds new = [] := by
    rcases hnew with ⟨rfl, -⟩ | ⟨s, rfl, hs, -⟩
    · rfl
    · have hnot : ¬ (0 : ℤ) ≤ s.conn.id := by
        rw [hs.id]
        decide
      simp [liveIds, liveId, hnot]
  have hold : liveIds (m.slots.filterMap f) = liveIds m.slots := by
    rw [liveIds, List.filterMap_filterMap]
    refine List.filterMap_congr fun s _ => ?_
    cases hfs : f s with
    | none =>
      have hdel := (hnone s).mp hfs
      simp [liveId, hdel]
    | some s' =>
      have hkeep := (hrun s s' hfs).keeps
      exact liveId_congr hkeep.id hkeep.delete
  rw [hslots, liveIds, List.filterMap_append]
  change liveIds _ ++ liveIds _ = _
  rw [hclients, hold, List.append_nil]

/-- Sorting moves ids from the stack to connections that wait for one. -/
theorem perm_assigns {stack stack' : List ℤ} {slots slots' : List Slot}
    (h : Assigns stack slots stack' slots') (hok : ∀ s ∈ slots, SlotOk s)
    (hstack : ∀ id ∈ stack, 0 ≤ id) :
    (stack' ++ liveIds slots').Perm (stack ++ liveIds slots) := by
  have hwait : ∀ s : Slot, s.conn.id < 0 → liveId s = none := fun s hs =>
    if_neg fun hlive => absurd hlive.2 (by omega)
  induction h with
  | nil => exact .refl _
  | @keep stack stack' slots slots' s hid _ ih =>
    have hrest := ih (fun t ht => hok t (List.mem_cons_of_mem _ ht)) hstack
    unfold liveIds at hrest ⊢
    rw [List.filterMap_cons, List.filterMap_cons]
    cases liveId s with
    | none => exact hrest
    | some id => exact List.perm_middle.trans ((hrest.cons id).trans List.perm_middle.symm)
  | @wait stack' slots slots' s hid _ ih =>
    have hrest := ih (fun t ht => hok t (List.mem_cons_of_mem _ ht)) hstack
    unfold liveIds at hrest ⊢
    rw [List.filterMap_cons, List.filterMap_cons, hwait s hid]
    exact hrest
  | @take stack stack' slots slots' s id hid _ ih =>
    have hrest := ih (fun t ht => hok t (List.mem_cons_of_mem _ ht))
      fun i hi => hstack i (List.mem_cons_of_mem _ hi)
    have hnew : liveId { s with conn := { s.conn with id := id } } = some id :=
      if_pos ⟨((hok s List.mem_cons_self).waiting hid).1, hstack id List.mem_cons_self⟩
    unfold liveIds at hrest ⊢
    rw [List.filterMap_cons, List.filterMap_cons, hwait s hid, hnew]
    exact List.perm_middle.trans (hrest.cons id)

/-- A connection that is closed gives its id back to the stack. -/
theorem IdAccount.giveBack (h : IdAccount c) (hwf : WellFormed c) {s : Slot} (hs : s ∈ c.slots)
    (hdel : s.conn.state.delete = false) (hid : 1 ≤ s.conn.id) {f : Connection → Connection}
    (hf : (f s.conn).state.delete = true) :
    (idStackPush c.freeIds s.conn.id ++ liveIds (c.slots.map (modifySlot s.ref f))).Perm
    allIds := by
  obtain ⟨l₁, l₂, hl, hmod⟩ := modifyConn_eq_append hwf.nodup hs f
  have hlive : liveId s = some s.conn.id := if_pos ⟨hdel, by omega⟩
  have hdead : liveId { s with conn := f s.conn } = none := if_neg (by simp [hf])
  have hperm := h.perm
  unfold liveIds at hperm ⊢
  rw [← modifyConn_eq_map, hmod, idStackPush, if_neg (h.length_freeIds hs hdel hid)]
  rw [hl] at hperm
  rw [List.filterMap_append, List.filterMap_cons, hlive] at hperm
  rw [List.filterMap_append, List.filterMap_cons, hdead]
  refine List.Perm.trans ?_ hperm
  rw [← List.append_assoc, ← List.append_assoc]
  exact List.perm_middle.symm

/-! ### Every step -/

theorem IdAccount.of_eq (h : IdAccount c) (haccepting : c'.accepting = c.accepting)
    (hfree : c'.freeIds = c.freeIds) (hlive : liveIds c'.slots = liveIds c.slots) :
    IdAccount c' :=
  ⟨haccepting.trans h.accepting, by rw [hfree, hlive]; exact h.perm, by rw [hfree]; exact h.zero⟩

/-- Moving bytes does not touch the account. -/
theorem liveIds_of_moved {id : ℤ} {slots slots' : List Slot} (h : SlotsMoved id slots slots') :
    liveIds slots' = liveIds slots := by
  obtain ⟨g, rfl, hg, -⟩ := h
  exact liveIds_map fun s hs => liveId_congr (hg s hs).id (by rw [(hg s hs).state])

theorem IdAccount.announce (h : IdAccount c) (hwf : WellFormed c) {s : Slot} (hs : s ∈ c.slots)
    (hid : 1 ≤ s.conn.id) (hdel : s.conn.state.delete = false) {cmd : UInt8} {conn : Connection}
    (hann : Announces s.conn cmd conn) (q : CmdQueue) : IdAccount (c.announce s cmd conn q) := by
  by_cases hcmd : cmd = cmdClose
  · have hdead : conn.state.delete = true := by
      subst hcmd
      cases hann
      rfl
    have hfree : (c.announce s cmd conn q).freeIds = idStackPush c.freeIds s.conn.id :=
      if_pos ⟨hcmd, h.accepting⟩
    refine ⟨h.accepting, ?_, ?_⟩
    · rw [hfree, slots_announce]
      exact h.giveBack hwf hs hdel hid hdead
    · rw [hfree]
      intro hmem
      rcases mem_idStackPush hmem with hzero | hmem
      · omega
      · exact h.zero hmem
  · have hfree : (c.announce s cmd conn q).freeIds = c.freeIds := if_neg fun hc => hcmd hc.1
    refine h.of_eq rfl hfree ?_
    rw [slots_announce]
    refine liveIds_modifySlot hwf.nodup hs (liveId_congr hann.id ?_)
    cases hann with
    | close => exact absurd rfl hcmd
    | _ => rfl

theorem IdAccount.handle (h : IdAccount c) (hwf : WellFormed c) (env : ConnectEnv) {cmd arg : UInt8}
    (hguard : ∀ e ∈ (onCommand env c ⟨cmd, arg, 0⟩).trace, e.Guarded)
    (habout : ∀ e ∈ (onCommand env c ⟨cmd, arg, 0⟩).trace, e.AboutConnection) :
    IdAccount (onCommand env c ⟨cmd, arg, 0⟩) := by
  obtain ⟨opened, heff⟩ := onCommand_effect env c ⟨cmd, arg, 0⟩
  have hevent : .handled ⟨cmd, arg, 0⟩ (commandTarget c ⟨cmd, arg, 0⟩) c.freeIds opened ∈
      (onCommand env c ⟨cmd, arg, 0⟩).trace := by
    rw [heff.trace]
    exact List.mem_cons_self
  have hgives := hguard _ hevent
  have harg : arg ≠ 0 := habout _ hevent
  rcases heff.slots with ⟨s, htarget, -, hslots, -, hfree⟩ |
    ⟨htarget, hfree, ⟨-, hslots, -⟩ | ⟨hopened, -⟩⟩ <;> rw [htarget] at hgives
  · obtain ⟨hs, hid⟩ := commandTarget_eq_some htarget
    have hpos : 1 ≤ s.conn.id := by
      have hne : arg.toNat ≠ 0 := fun hzero => harg (UInt8.toNat_inj.mp hzero)
      rw [hid]
      change (1 : ℤ) ≤ arg.toNat
      omega
    by_cases hcmd : cmd = cmdClose
    · have hdead : (commandChange cmd s.conn).state.delete = true := by
        rw [commandChange, if_pos hcmd]
      rw [if_pos ⟨hcmd, h.accepting⟩] at hfree
      have hzero : (0 : ℤ) ∉ (onCommand env c ⟨cmd, arg, 0⟩).freeIds := by
        rw [hfree]
        intro hmem
        rcases mem_idStackPush hmem with heq | hmem
        · omega
        · exact h.zero hmem
      refine ⟨heff.accepting.trans h.accepting, ?_, hzero⟩
      rw [hfree, hslots]
      cases hdel : s.conn.state.delete with
      | false => exact h.giveBack hwf hs hdel hpos hdead
      | true =>
        -- the id is on the stack already, and the stack is full
        have hfull : c.freeIds.length = maxStackSize :=
          (hgives hcmd).resolve_left (by simp [hdel])
        have hsame : liveId { s with conn := commandChange cmd s.conn } = liveId s :=
          liveId_congr (id_commandChange cmd _) (hdead.trans hdel.symm)
        rw [idStackPush, if_pos hfull, liveIds_modifySlot hwf.nodup hs hsame]
        exact h.perm
    · rw [if_neg fun hc => hcmd hc.1] at hfree
      refine h.of_eq heff.accepting hfree ?_
      rw [hslots]
      exact liveIds_modifySlot hwf.nodup hs
        (liveId_congr (id_commandChange cmd _) (delete_commandChange hcmd _))
  · exact h.of_eq heff.accepting hfree (by rw [hslots])
  · exact absurd (hgives.symm.trans hopened) Bool.false_ne_true

/-- **Every guarded step keeps the account.** -/
theorem Step.idAccount (hwf : WellFormed c) (hstep : Step c c')
    (hguard : ∀ e ∈ c'.trace, e.Guarded) (habout : ∀ e ∈ c'.trace, e.AboutConnection)
    (h : IdAccount c) : IdAccount c' := by
  cases hstep with
  | poll hpoll => exact h.of_eq rfl rfl (liveIds_poll hpoll)
  | sort =>
    have hperm := perm_assigns hwf.sort_assigns hwf.slotOk fun id hid => (hwf.freeIds id hid).1
    exact ⟨h.accepting, hperm.trans h.perm, fun hmem => h.zero (hwf.sort_assigns.forall₂.2 hmem)⟩
  | announce hs hid hdel hann => exact h.announce hwf hs hid hdel hann _
  | @deliver env id tunnel target hid hlast =>
    have hmoved := slotsMoved_deliver hwf.nodup env id tunnel (mem_of_lastWithId hlast).1
    exact h.of_eq rfl rfl (liveIds_of_moved hmoved)
  | handle env cmd arg => exact h.handle hwf env hguard habout
  | quiet hq => exact h.of_eq hq.accepting hq.freeIds (liveIds_of_moved hq.moved)

/-! ### Runs -/

variable {bufSize : ℕ+}

theorem idAccount_startController (env : StartEnv) :
    IdAccount (startController env bufSize true) := by
  have hlive : liveIds (startController env bufSize true).slots = [0] := rfl
  have hall : allIds = 0 :: idStackInit := by decide +kernel
  have hzero : (0 : ℤ) ∉ idStackInit := by decide +kernel
  refine ⟨rfl, ?_, hzero⟩
  rw [hlive, hall]
  exact List.perm_append_singleton 0 idStackInit

/-- **Ids are accounted for in every guarded run.** -/
theorem accounted_of_guarded {c : Controller} (h : Visit bufSize true c)
    (habout : ∀ e ∈ c.trace, e.AboutConnection) (hguard : ∀ e ∈ c.trace, e.Guarded) :
    Accounted c := by
  have hinv := h.induction
    (P := fun c => (∀ e ∈ c.trace, e.AboutConnection) → (∀ e ∈ c.trace, e.Guarded) → IdAccount c)
    (fun env _ _ => idAccount_startController env) fun hwf hstep ih habout hguard =>
      hstep.idAccount hwf hguard habout
        (ih (fun e he => habout e (hstep.trace_subset he)) fun e he =>
          hguard e (hstep.trace_subset he))
  exact (hinv habout hguard).accounted

/-- Two clients connect, and the first one is closed from both sides. -/
def closedByPeer : Option Controller :=
  updates [⟨clientComes 7, samplePump⟩, ⟨clientComes 8, samplePump⟩,
      ⟨tunnelReads [0x7E, 0, 5, 1, 0x7E], samplePump⟩,
      ⟨tunnelReads [0x7E, 0, 2, 1, 0x7E], samplePump⟩]
    (startController sampleStart sampleBufSize true)

theorem accounted_of_guarded_closedByPeer : ∃ c ∈ closedByPeer,
    c.freeIds.take 2 = [1, 3] ∧ Accounted c := by
  have hrun : closedByPeer.map (fun c => (c.freeIds.take 2,
      decide (∀ e ∈ c.trace, e.AboutConnection), decide (∀ e ∈ c.trace, e.Guarded))) =
        some ([1, 3], true, true) := by decide +kernel
  obtain ⟨c, hc, hrun⟩ := Option.map_eq_some_iff.mp hrun
  simp only [Prod.mk.injEq, decide_eq_true_eq] at hrun
  exact ⟨c, hc, hrun.1, accounted_of_guarded (.reach (reach_updates (.start sampleStart) hc))
    hrun.2.1 hrun.2.2⟩

/-- Two clients connect; the first one ends its input after the peer has ended its output, and
`CMD_CLOSE` of the peer arrives in the same update. -/
def closedTwice : Option Controller :=
  updates [⟨clientComes 7, samplePump⟩, ⟨clientComes 8, samplePump⟩,
      ⟨tunnelReads [0x7E, 0, 5, 1, 0x7E], samplePump⟩,
      ⟨tunnelReads [0x7E, 0, 3, 1, 0x7E], samplePump⟩,
      ⟨clientEndsWith [0x7E, 0, 2, 1, 0x7E], samplePump⟩]
    (startController sampleStart sampleBufSize true)

theorem not_accounted_closedTwice : ∃ c, Reach 10240 true c ∧ (∀ e ∈ c.trace, e.AboutConnection) ∧
    c.freeIds.take 3 = [1, 1, 3] ∧ ¬ Accounted c := by
  have hrun : closedTwice.map (fun c => (c.freeIds.take 3,
      decide (∀ e ∈ c.trace, e.AboutConnection))) = some ([1, 1, 3], true) := by decide +kernel
  obtain ⟨c, hc, hrun⟩ := Option.map_eq_some_iff.mp hrun
  obtain ⟨htake, habout⟩ := Prod.mk.inj hrun
  refine ⟨c, reach_updates (.start sampleStart) hc, of_decide_eq_true habout, htake,
    fun haccounted => ?_⟩
  have hnodup := haccounted.freeNodup.sublist (List.take_sublist 3 _)
  rw [htake] at hnodup
  exact absurd hnodup (by decide)

end OsTasks.PortForwarding
