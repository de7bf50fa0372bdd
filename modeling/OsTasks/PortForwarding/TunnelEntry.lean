import OsTasks.PortForwarding.Evolution

/-!
# The tunnel entry of the manager

The tunnel is an ordinary connection of the manager, with id `0`, and commands of the peer look
connections up by their argument in the same list. A `CMD_CLOSE` with argument `0` marks the tunnel
for deletion and, at an accepting endpoint, puts `0` on the stack of free ids; without the entry
`update` goes on as if nothing had happened. No other command takes the tunnel away, and when its
socket closes `update` says so.

## Main definitions

* `TunnelKept`: the tunnel is in the list, as the only connection with id `0`.
* `TunnelClosed`: a direction of the tunnel, or its socket, has been closed.
* `PumpEvent.SparesTunnel`: the events that leave the tunnel alone.

## Main results

* `tunnel_kept`: in a run with only such events the tunnel is kept until `update` reports an error.
* `not_tunnel_kept_tunnelReplaced`: a run in which a client takes the place of the tunnel.
-/

namespace OsTasks.PortForwarding

/-! ### The entry -/

/-- The manager holds the tunnel it was started with, the object at address `0`, as its only
connection with id `0`, and does not give this id away. -/
structure TunnelKept (c : Controller) : Prop where
  entry : ∃ s ∈ c.slots, s.ref = 0 ∧ s.conn.id = 0
  only : ∀ s ∈ c.slots, s.conn.id = 0 → s.ref = 0
  free : (0 : ℤ) ∉ c.freeIds

/-- The socket of the tunnel, or one of its directions, has been closed. -/
def TunnelClosed (s : Slot) : Prop :=
  s.conn.state.closed = true ∨ s.conn.inState.closed = true ∨ s.conn.outState.closed = true

/-- The events that leave the tunnel alone: no `CMD_CLOSE` with argument `0` is handled. -/
def PumpEvent.SparesTunnel : PumpEvent → Prop
  | .handled command _ _ _ => ¬ (command.cmd = cmdClose ∧ command.arg = 0)
  | _ => True

instance : DecidablePred PumpEvent.SparesTunnel
  | .handled command _ _ _ => inferInstanceAs
      (Decidable (¬ (command.cmd = cmdClose ∧ command.arg = 0)))
  | .queued .. | .received .. | .delivered .. | .sent .. | .dropped .. | .encoded .. =>
      isTrue trivial

/-- The tunnel is there, is not marked for deletion, and its id is its own. -/
structure TunnelInv (c : Controller) : Prop where
  entry : ∃ s ∈ c.slots, s.ref = 0 ∧ s.conn.id = 0 ∧ s.conn.state.delete = false
  only : ∀ s ∈ c.slots, s.conn.id = 0 → s.ref = 0
  free : (0 : ℤ) ∉ c.freeIds

variable {c c' : Controller}

theorem TunnelInv.kept (h : TunnelInv c) : TunnelKept c :=
  ⟨h.entry.imp fun _ hs => ⟨hs.1, hs.2.1, hs.2.2.1⟩, h.only, h.free⟩

/-- A change of the slots in place that keeps ids and does not mark the tunnel. -/
theorem TunnelInv.map (h : TunnelInv c) {g : Slot → Slot} (hslots : c'.slots = c.slots.map g)
    (href : ∀ s ∈ c.slots, (g s).ref = s.ref) (hid : ∀ s ∈ c.slots, (g s).conn.id = s.conn.id)
    (hdel : ∀ s ∈ c.slots, s.conn.id = 0 → s.conn.state.delete = false →
      (g s).conn.state.delete = false)
    (hfree : (0 : ℤ) ∉ c'.freeIds) : TunnelInv c' := by
  obtain ⟨s, hs, hsref, hsid, hsdel⟩ := h.entry
  refine ⟨⟨g s, ?_, ?_, ?_, hdel s hs hsid hsdel⟩, ?_, hfree⟩
  · rw [hslots]
    exact List.mem_map_of_mem hs
  · rw [href s hs, hsref]
  · rw [hid s hs, hsid]
  · rw [hslots]
    intro t' ht' hidt
    obtain ⟨t, ht, rfl⟩ := List.mem_map.mp ht'
    rw [href t ht]
    exact h.only t ht ((hid t ht).symm.trans hidt)

theorem TunnelInv.moved {id : ℤ} (h : TunnelInv c) (hmoved : SlotsMoved id c.slots c'.slots)
    (hfree : c'.freeIds = c.freeIds) : TunnelInv c' := by
  obtain ⟨g, hslots, hg, -⟩ := hmoved
  exact h.map hslots (fun s hs => (hg s hs).ref) (fun s hs => (hg s hs).id)
    (fun s hs _ hdel => by rw [(hg s hs).state, hdel]) (hfree ▸ h.free)

theorem TunnelInv.poll {env : PollEnv} {m : Manager} {cause : CloseCause}
    (hpoll : cmPoll env c.manager = .ok (m, cause)) (h : TunnelInv c) :
    TunnelInv { c with manager := m } := by
  obtain ⟨s, hs, hsref, hsid, hsdel⟩ := h.entry
  obtain ⟨s', hs', hrun⟩ := exists_mem_slots_poll hpoll hs hsdel
  have hkeep := hrun.keeps
  refine ⟨⟨s', hs', hkeep.ref.trans hsref, hkeep.id.trans hsid, hkeep.delete.trans hsdel⟩,
    ?_, h.free⟩
  intro t' ht' hid
  rcases mem_slots_poll hpoll ht' with ⟨t, ht, -, hrun⟩ | ⟨hfresh, -⟩
  · rw [hrun.keeps.ref]
    exact h.only t ht (hrun.keeps.id.symm.trans hid)
  · rw [hfresh.id] at hid
    exact absurd hid (by decide)

theorem TunnelInv.sort (hwf : WellFormed c) (h : TunnelInv c) : TunnelInv c.sort := by
  have hass := hwf.sort_assigns.forall₂
  obtain ⟨s, hs, hsref, hsid, hsdel⟩ := h.entry
  refine ⟨?_, fun t' ht' hid => ?_, fun hmem => h.free (hass.2 hmem)⟩
  · obtain ⟨s', hs', rfl | ⟨hneg, -⟩⟩ := exists_of_forall₂_of_mem hass.1.flip hs
    · exact ⟨s', hs', hsref, hsid, hsdel⟩
    · omega
  · obtain ⟨t, ht, rfl | ⟨-, id, hmem, rfl⟩⟩ := hwf.mem_slots_sort ht'
    · exact h.only t' ht hid
    · obtain rfl : id = 0 := hid
      exact absurd hmem h.free

theorem not_mem_giveBack (h : TunnelInv c) {id : ℤ} (hid : id ≠ 0) {p : Prop} [Decidable p] :
    (0 : ℤ) ∉ if p then idStackPush c.freeIds id else c.freeIds := by
  split_ifs
  · intro hmem
    exact (mem_idStackPush hmem).elim (fun heq => hid heq.symm) h.free
  · exact h.free

theorem TunnelInv.announce (hwf : WellFormed c) (h : TunnelInv c) {s : Slot} (hs : s ∈ c.slots)
    (hid : 1 ≤ s.conn.id) {cmd : UInt8} {conn : Connection} (hann : Announces s.conn cmd conn)
    (q : CmdQueue) : TunnelInv (c.announce s cmd conn q) := by
  refine h.map (slots_announce c s cmd conn q) (fun t _ => ref_modifySlot _ _ t)
    (fun t ht => id_modifySlot hwf.nodup hs hann.id ht) (fun t ht htid hdel => ?_)
    (not_mem_giveBack h (by omega))
  have href : t.ref ≠ s.ref := fun href => by
    rw [eq_of_ref_eq hwf.nodup ht hs href] at htid
    omega
  rwa [modifySlot_of_ne href]

theorem TunnelInv.handle (hwf : WellFormed c) (h : TunnelInv c) (env : ConnectEnv)
    {cmd arg : UInt8} (hspares : ∀ e ∈ (onCommand env c ⟨cmd, arg, 0⟩).trace, e.SparesTunnel) :
    TunnelInv (onCommand env c ⟨cmd, arg, 0⟩) := by
  obtain ⟨opened, heff⟩ := onCommand_effect env c ⟨cmd, arg, 0⟩
  have hnot : ¬ (cmd = cmdClose ∧ arg = 0) := by
    have hevent := hspares (.handled ⟨cmd, arg, 0⟩ (commandTarget c ⟨cmd, arg, 0⟩) c.freeIds opened)
    rw [heff.trace] at hevent
    exact hevent List.mem_cons_self
  rcases heff.slots with ⟨s, htarget, -, hslots, -, hfree⟩ |
    ⟨htarget, hfree, ⟨-, hslots, -⟩ | ⟨-, -, s, hslots, hfresh, -⟩⟩
  · obtain ⟨hs, hid⟩ := commandTarget_eq_some htarget
    have hzero : cmd = cmdClose → s.conn.id ≠ 0 := by
      intro hcmd heq
      refine hnot ⟨hcmd, UInt8.toNat_inj.mp ?_⟩
      have hidarg : s.conn.id = (arg.toNat : ℤ) := hid
      exact Int.natCast_eq_zero.mp (hidarg.symm.trans heq)
    refine h.map hslots (fun t _ => ref_modifySlot _ _ t)
      (fun t ht => id_modifySlot hwf.nodup hs (id_commandChange cmd s.conn) ht)
      (fun t ht htid hdel => ?_) ?_
    · by_cases href : t.ref = s.ref
      · obtain rfl := eq_of_ref_eq hwf.nodup ht hs href
        rw [modifySlot_self]
        exact (delete_commandChange (fun hcmd => hzero hcmd htid) t.conn).trans hdel
      · rwa [modifySlot_of_ne href]
    · rw [hfree]
      by_cases hcmd : cmd = cmdClose
      · exact not_mem_giveBack h (hzero hcmd)
      · rw [if_neg fun hc => hcmd hc.1]
        exact h.free
  · exact ⟨hslots ▸ h.entry, hslots ▸ h.only, hfree ▸ h.free⟩
  · obtain ⟨t, ht, htref, htid, htdel⟩ := h.entry
    have hne : (arg.toNat : ℤ) ≠ 0 := by
      intro heq
      have hnone := List.find?_eq_none.mp htarget t ht
      simp only [beq_iff_eq] at hnone
      exact hnone (htid.trans heq.symm)
    refine ⟨⟨t, ?_, htref, htid, htdel⟩, fun u hu huid => ?_, hfree ▸ h.free⟩
    · rw [hslots]
      exact List.mem_append_left _ ht
    · rw [hslots, List.mem_append, List.mem_singleton] at hu
      rcases hu with hu | rfl
      · exact h.only u hu huid
      · exact absurd (hfresh.id.symm.trans huid) hne

/-- **Every step that spares the tunnel keeps its entry.** -/
theorem Step.tunnelInv (hwf : WellFormed c) (hstep : Step c c')
    (hspares : ∀ e ∈ c'.trace, e.SparesTunnel) (h : TunnelInv c) : TunnelInv c' := by
  cases hstep with
  | poll hpoll => exact h.poll hpoll
  | sort => exact h.sort hwf
  | announce hs hid _ hann => exact h.announce hwf hs hid hann _
  | @deliver env id tunnel target hid hlast =>
    exact h.moved (slotsMoved_deliver hwf.nodup env id tunnel (mem_of_lastWithId hlast).1) rfl
  | handle env cmd arg => exact h.handle hwf env hspares
  | quiet hq => exact h.moved hq.moved hq.freeIds

/-! ### Runs -/

variable {bufSize : ℕ+} {accepting : Bool}

theorem tunnelInv_startController (env : StartEnv) :
    TunnelInv (startController env bufSize accepting) := by
  have hzero : (0 : ℤ) ∉ idStackInit := by decide +kernel
  refine ⟨⟨_, List.mem_singleton_self _, rfl, rfl, rfl⟩, fun s hs _ => ?_, hzero⟩
  rw [List.mem_singleton.mp hs]

theorem Visit.tunnelInv (h : Visit bufSize accepting c) (hspares : ∀ e ∈ c.trace, e.SparesTunnel) :
    TunnelInv c :=
  h.induction (P := fun c => (∀ e ∈ c.trace, e.SparesTunnel) → TunnelInv c)
    (fun env _ => tunnelInv_startController env)
    (fun hwf hstep ih hspares =>
      hstep.tunnelInv hwf hspares (ih fun e he => hspares e (hstep.trace_subset he))) hspares

theorem handleStateChanges_of_tunnelClosed {tunnel : Slot} (h : TunnelClosed tunnel)
    (conns : Conns) (c : Controller) :
    handleStateChanges conns tunnel c = (.shutdown, c, conns) := by
  unfold handleStateChanges
  rw [if_pos]
  rcases h with h | h | h <;> simp [h]

/-- An update in which `cm_poll` has closed the tunnel reports an error. -/
theorem update_of_tunnelClosed {env : Env} {m : Manager} (hwf : WellFormed c) (h : TunnelInv c)
    (hpoll : cmPoll env.poll c.manager = .ok (m, .none)) {s : Slot} (hs : s ∈ m.slots)
    (href : s.ref = 0) (hclosed : TunnelClosed s) {cause : CloseCause}
    (hc : update env c = .ok (c', cause)) : cause = .error := by
  have hwf₁ : WellFormed { c with manager := m } := hwf.poll hpoll
  have h₁ : TunnelInv { c with manager := m } := h.poll hpoll
  have hwf₂ := hwf₁.sort
  have h₂ := h₁.sort hwf₁
  -- the object at address `0` is the tunnel, and sorting leaves it as it is
  have hmem : s ∈ (Controller.sort { c with manager := m }).slots ∧ s.conn.id = 0 := by
    obtain ⟨t, ht, htref, htid, -⟩ := h₁.entry
    obtain rfl := eq_of_ref_eq hwf₁.nodup hs ht (href.trans htref.symm)
    obtain ⟨s', hs', rfl | ⟨hneg, -⟩⟩ :=
      exists_of_forall₂_of_mem hwf₁.sort_assigns.forall₂.1.flip ht
    · exact ⟨hs', htid⟩
    · omega
  have hlast : lastWithId 0 (Controller.sort { c with manager := m }).slots = some s := by
    cases hlast : lastWithId 0 (Controller.sort { c with manager := m }).slots with
    | none => exact absurd hmem.2 (lastWithId_eq_none_iff.mp hlast s hmem.1)
    | some t =>
      obtain ⟨ht, htid⟩ := mem_of_lastWithId hlast
      rw [eq_of_ref_eq hwf₂.nodup ht hmem.1 ((h₂.only t ht htid).trans href.symm)]
  have hdel := delete_sort hwf₁ (delete_of_cmPoll hpoll)
  have hlookup := ((hwf₁.connsOk_sort hdel).lookup_iff hwf₂.nodup).mpr ⟨hlast, hdel s hmem.1⟩
  have hbefore : beforeTransfer env.poll c =
      .ok (Controller.sort { c with manager := m }, .inl .error) := by
    rw [beforeTransfer_of_cmPoll hpoll, changes, hlookup]
    simp only [handleStateChanges_of_tunnelClosed hclosed]
  rcases update_cases hc with hc | ⟨_, _, hc, -⟩ <;>
    obtain ⟨-, hnext⟩ := Prod.mk.inj (Except.ok.inj (hbefore.symm.trans hc))
  · exact (Sum.inl.inj hnext).symm
  · exact absurd hnext Sum.inl_ne_inr

/-- **The tunnel is kept** in every run without a `CMD_CLOSE` for it: it stays in the list as the
only connection with id `0`, this id is not given away, and when `cm_poll` has closed the tunnel,
`update` reports an error. -/
theorem tunnel_kept (h : Reach bufSize accepting c) {env : Env} {cause : CloseCause}
    (hc : update env c = .ok (c', cause)) (hspares : ∀ e ∈ c'.trace, e.SparesTunnel) :
    TunnelKept c' ∧ ∀ m, cmPoll env.poll c.manager = .ok (m, .none) →
      ∀ s ∈ m.slots, s.ref = 0 → TunnelClosed s → cause = .error := by
  have hvisit : Visit bufSize accepting c := .reach h
  have hsub : c.trace ⊆ c'.trace := (update_run hvisit.wellFormed hc).trace_subset
  refine ⟨((Visit.last h hc).tunnelInv hspares).kept, fun m hpoll s hs href hclosed => ?_⟩
  exact update_of_tunnelClosed hvisit.wellFormed
    (hvisit.tunnelInv fun e he => hspares e (hsub he)) hpoll hs href hclosed hc

/-- The tunnel ends while a client is connected. -/
def tunnelEnds : Option (Controller × Controller × CloseCause) :=
  (updates [⟨clientComes 7, samplePump⟩]
    (startController sampleStart sampleBufSize true)).bind fun c =>
    (update ⟨tunnelReads [], samplePump⟩ c).toOption.map fun r => (c, r)

theorem tunnel_kept_tunnelEnds : ∃ c c', Reach 10240 true c ∧
    update ⟨tunnelReads [], samplePump⟩ c = .ok (c', .error) ∧ TunnelKept c' := by
  have hrun : tunnelEnds.map (fun r => (r.2.2, decide (∀ e ∈ r.2.1.trace, e.SparesTunnel))) =
      some (.error, true) := by decide +kernel
  obtain ⟨⟨c, c', cause⟩, hc, hrun⟩ := Option.map_eq_some_iff.mp hrun
  simp only [Prod.mk.injEq, decide_eq_true_eq] at hrun
  obtain ⟨c₀, hc₀, hlast⟩ := Option.bind_eq_some_iff.mp hc
  cases hupdate : update ⟨tunnelReads [], samplePump⟩ c₀ with
  | error fault => simp [hupdate, Except.toOption] at hlast
  | ok r =>
    simp only [hupdate, Except.toOption, Option.map_some, Option.some.injEq, Prod.mk.injEq] at hlast
    obtain ⟨rfl, rfl⟩ := hlast
    obtain ⟨rfl, hspares⟩ := hrun
    have hreach := reach_updates (.start sampleStart) hc₀
    exact ⟨c₀, c', hreach, hupdate, (tunnel_kept hreach hupdate hspares).1⟩

/-- The peer closes connection `0` while a client is connected, and another client comes. -/
def tunnelReplaced : Option Controller :=
  updates [⟨clientComes 7, samplePump⟩, ⟨tunnelReads [0x7E, 0, 2, 0, 0x7E], samplePump⟩,
      ⟨clientComes 8, samplePump⟩]
    (startController sampleStart sampleBufSize true)

/-- The client is taken for the tunnel, and no update has reported anything. -/
theorem not_tunnel_kept_tunnelReplaced : ∃ c, Reach 10240 true c ∧
    c.slots.map (fun s => (s.ref, s.conn.id)) = [(1, 1), (2, 0)] ∧ ¬ TunnelKept c := by
  have hrun : tunnelReplaced.map (fun c => c.slots.map fun s => (s.ref, s.conn.id)) =
      some [(1, 1), (2, 0)] := by decide +kernel
  obtain ⟨c, hc, hslots⟩ := Option.map_eq_some_iff.mp hrun
  refine ⟨c, reach_updates (.start sampleStart) hc, hslots, fun hkept => ?_⟩
  obtain ⟨s, hs, href, hid⟩ := hkept.entry
  have hmem := List.mem_map_of_mem (f := fun s : Slot => (s.ref, s.conn.id)) hs
  rw [hslots, href, hid] at hmem
  exact absurd hmem (by decide)

end OsTasks.PortForwarding
