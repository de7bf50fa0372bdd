import OsTasks.PortForwarding.TunnelSpared

/-!
# The bytes of the clients

An endpoint of a system of two keeps the accounts of its connections by client: with a tag that no
connection has had, nothing has been moved.

## Main definitions

* `Untouched`: there has been no connection for the client.
* `ClientBytes`: the accounts of an endpoint by client.

## Main results

* `ClientBytes.update`: an update keeps the accounts.
-/

namespace OsTasks.PortForwarding

variable {c c' : Controller} {h : History} {env : Env} {tag : ℕ}

/-- There has been no connection of the endpoint for the client: none has been opened for it, and it
has not been accepted. -/
structure Untouched (c : Controller) (τ : ℕ) : Prop where
  opened : c.trace.countP (PumpEvent.opens τ) = 0
  accepted : 0 ≤ c.manager.acceptor → c.manager.nextRef ≤ τ
  ne : τ ≠ 0

/-- The accounts of an endpoint by client. -/
structure ClientBytes (c : Controller) (h : History) : Prop where
  spared : Spared c
  tunnel : ∀ s ∈ c.slots, s.ref = 0 → s.inc = 0
  conserved : Conserved Slot.inc 0 c h
  serving : ∀ τ, Untouched c τ → servingTag τ c.slots = 0
  unused : ∀ τ, Untouched c τ → h.Unused Slot.inc c.trace τ

theorem servingTag_eq_zero {slots : List Slot} {τ : ℕ} :
    servingTag τ slots = 0 ↔ ∀ s ∈ slots, s.inc ≠ τ := by
  simp [servingTag, List.countP_eq_zero]

theorem servingTag_undeleted (τ : ℕ) (slots : List Slot) :
    servingTag τ (undeleted slots) ≤ servingTag τ slots := List.filter_sublist.countP_le

theorem clientBytes_start (env : StartEnv) (bufSize : ℕ+) (accepting : Bool) :
    ClientBytes (startController env bufSize accepting) {} := by
  have hslot : ∀ s ∈ (startController env bufSize accepting).slots, s.inc = 0 := by
    intro s hs
    rw [List.mem_singleton.mp hs]
  refine ⟨⟨tunnelInv_startController env, fun _ hcommand => absurd hcommand List.not_mem_nil⟩,
    fun s hs _ => hslot s hs, ?_,
    fun τ hτ => servingTag_eq_zero.mpr fun s hs hinc => hτ.ne (hinc ▸ hslot s hs),
    fun _ _ => ⟨rfl, rfl⟩⟩
  refine ⟨fun k hk => ⟨[], rfl, fun s hs hsk => absurd (hsk ▸ hslot s hs) hk⟩,
    fun k hk => ⟨[], rfl, fun s hs hsk => absurd (hsk ▸ hslot s hs) hk⟩, ?_⟩
  exact (@outputAt_tunnel bufSize accepting env).symm

/-- A tunnel that has its key keeps it. -/
theorem tunnelKey_updateFor {key : Slot → ℕ} {kt : ℕ} {env : Env} (hkey : IsKey key)
    (hwf : WellFormed c) (htunnel : TunnelInv c) (hkt : ∀ s ∈ c.slots, s.ref = 0 → key s = kt)
    (hc : updateFor tag env c = .ok (c', .none)) : ∀ s ∈ c'.slots, s.ref = 0 → key s = kt := by
  cases updateFor_parts hwf hc with
  | waits hpoll hrun =>
    have hsteps : StepRun c c' :=
      .head (.poll hpoll) (.head (.sort (delete_of_cmPoll hpoll)) hrun.stepRun)
    intro s' hs' hzero
    rcases (hsteps.origin hwf).2 s' hs' with ⟨s, hs, href, hinc⟩ | hnew
    · exact (hkey _ _ href hinc).trans (hkt s hs (href.symm.trans hzero))
    · obtain ⟨s, hs, -⟩ := htunnel.entry
      have := hwf.allocated s hs
      omega
  | pumps hpoll hrun hconns _ hintake =>
    have hentry := hintake.entry
      (pumping_of_entry isKey_ref hwf htunnel (fun _ _ href => href) hpoll hrun hconns)
    have hready := pumping_of_entry hkey hwf htunnel hkt hpoll hrun hconns
    have hready' := (conveys_intake hkey hready hintake).2
    obtain ⟨hsent, hsend⟩ := sendToTunnel_sent hready'.nodup hready'.entries
    intro s' hs' hzero
    obtain ⟨g, hslots, hg⟩ := hsent
    rw [hslots] at hs'
    obtain ⟨s, hs, rfl⟩ := List.mem_map.mp hs'
    have href := (hg s hs).ref
    rw [hkey _ _ href (hg s hs).inc]
    exact hready'.tunnel s hs (hentry.trans (congrArg some (hzero.symm.trans href)))

/-- What a run says about the connections of an endpoint: none is opened, or it accepts no clients
and opens one connection for each client at most. -/
def OpensFew (c c' : Controller) : Prop :=
  (∀ τ, c'.trace.countP (PumpEvent.opens τ) = 0) ∨
    c.manager.acceptor < 0 ∧ ∀ τ, c'.trace.countP (PumpEvent.opens τ) ≤ 1

/-- **An update keeps the accounts.** -/
theorem ClientBytes.update {env : Env} (hbytes : ClientBytes c h) (hwf : WellFormed c)
    (hnd : (c.slots.map Slot.inc).Nodup) (hnd' : (c'.slots.map Slot.inc).Nodup)
    (hin : ∀ s ∈ c.slots, s.conn.inBuf.CanStore) (hout : ∀ s ∈ c'.slots, s.conn.outBuf.Unwrapped)
    (hfew : OpensFew c c') (hc : updateFor tag env c = .ok (c', .none))
    (hother : ∀ cmd, (env.taking c).start ≠ some (.command cmd 0)) :
    ClientBytes c' (h.after Slot.inc env.poll c.slots) ∧
      ∃ events, Balanced Slot.inc 0 env.poll c c' events := by
  have htunnel := hbytes.spared.toTunnelInv
  obtain ⟨events, hb⟩ := balanced_updateFor isKey_inc hwf htunnel hbytes.tunnel hnd hin hc
    ⟨hnd', hout⟩
  obtain ⟨-, events', hopens⟩ := opens_updateFor hwf hc
  obtain rfl : events' = events := List.append_cancel_right (hopens.trace.symm.trans hb.trace)
  have hcount (τ : ℕ) : c'.trace.countP (PumpEvent.opens τ) =
      events'.countP (PumpEvent.opens τ) + c.trace.countP (PumpEvent.opens τ) := by
    rw [hb.trace, List.countP_append]
  obtain ⟨t, ht, htref, -, htdel⟩ := htunnel.entry
  have htinc : ∃ s ∈ undeleted c.slots, s.inc = 0 :=
    ⟨t, mem_undeleted.mpr ⟨ht, htdel⟩, hbytes.tunnel t ht htref⟩
  -- a client that has not been touched before
  have hbefore {τ : ℕ} (hτ : Untouched c' τ) : Untouched c τ := by
    refine ⟨?_, fun hacceptor => ?_, hτ.ne⟩
    · have := hτ.opened
      have := hcount τ
      omega
    · exact hopens.nextRef.trans (hτ.accepted (hopens.acceptor ▸ hacceptor))
  have hserving {τ : ℕ} (hτ : Untouched c' τ) : servingTag τ c'.slots = 0 := by
    have hremain := hopens.remain τ
    have := (servingTag_undeleted τ c.slots).trans_eq (hbytes.serving τ (hbefore hτ))
    have := hτ.opened
    have := hcount τ
    have hcomes : comes τ c c' = 0 := by
      refine if_neg fun hcond => ?_
      have := hτ.accepted (hopens.acceptor ▸ hcond.1)
      omega
    omega
  -- a connection that was not there before is for such a client
  have horigin : ∀ s' ∈ c'.slots, (∃ s ∈ undeleted c.slots, s.inc = s'.inc) ∨
      h.Unused Slot.inc c.trace s'.inc := by
    intro s' hs'
    refine or_iff_not_imp_left.mpr fun hnone => hbytes.unused _ ?_
    have hpos : 0 < servingTag s'.inc c'.slots :=
      List.countP_pos_iff.mpr ⟨s', hs', beq_self_eq_true s'.inc⟩
    have hremain := hopens.remain s'.inc
    have hgone : servingTag s'.inc (undeleted c.slots) = 0 :=
      servingTag_eq_zero.mpr fun s hs hinc => hnone ⟨s, hs, hinc⟩
    have hc := hcount s'.inc
    have hzero : s'.inc ≠ 0 := fun hzero => hnone (hzero ▸ htinc)
    rcases hfew with hfew | ⟨hacceptor, hfew⟩
    · have hnone' := hfew s'.inc
      have hcomes : comes s'.inc c c' ≠ 0 := by omega
      refine ⟨by omega, fun _ => ?_, hzero⟩
      by_contra hlt
      exact hcomes (if_neg fun hcond => hlt hcond.2.1)
    · have hcomes : comes s'.inc c c' = 0 := if_neg fun hcond => by omega
      have := hfew s'.inc
      exact ⟨by omega, fun _ => by omega, hzero⟩
  refine ⟨⟨(hbytes.spared.update hwf hc hother).1,
    tunnelKey_updateFor isKey_inc hwf htunnel hbytes.tunnel hc,
    hbytes.conserved.next hnd hnd' hb htinc horigin, fun τ => hserving, fun τ hτ => ?_⟩,
    events', hb⟩
  have hunused := hbytes.unused τ (hbefore hτ)
  have hgone : ∀ s ∈ undeleted c.slots, s.inc ≠ τ := servingTag_eq_zero.mp <|
    Nat.le_zero.mp ((servingTag_undeleted τ c.slots).trans_eq (hbytes.serving τ (hbefore hτ)))
  have hpassed := hb.output τ hτ.ne
  rw [outputAt, heldAt_of_forall_ne hgone, (polled_of_gone hgone).2, outputAt,
    heldAt_of_forall_ne (servingTag_eq_zero.mp (hserving hτ))] at hpassed
  refine ⟨?_, ?_⟩
  · change h.read τ ++ readAt Slot.inc env.poll c.slots τ = []
    rw [hunused.read, (polled_of_gone hgone).1, List.append_nil]
  · rw [hb.trace, deliveredAt_append, hunused.delivered]
    exact hpassed

end OsTasks.PortForwarding
