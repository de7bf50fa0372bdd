import OsTasks.PortForwarding.UpdateTraffic

/-!
# The bytes that connections carry

What has been read from the socket of a connection has been encoded for the tunnel, or is unread
input; and what has been delivered to it has been written to its socket, or is unsent output. This
holds for every run, with any peer, in which an input that wraps when an update begins is full, no
output wraps after an update, and the tunnel is not closed by the peer.

## Main definitions

* `History`: the bytes that have been read from and written to the sockets, by connection.
* `Conserved`: the accounts of an endpoint.
* `Recorded`: an endpoint with the history of its sockets.

## Main results

* `Conserved.next`: an update keeps the accounts.
* `connections_conserve_bytes`: the accounts in every run.
-/

namespace OsTasks.PortForwarding

/-! ### Accounts -/

/-- The bytes that have been read from the sockets and written to them, by key of the connection. -/
structure History where
  read : ℕ → List UInt8 := fun _ => []
  written : ℕ → List UInt8 := fun _ => []

/-- The history after a call of `cm_poll`. -/
def History.after (h : History) (key : Slot → ℕ) (env : PollEnv) (slots : List Slot) : History where
  read k := h.read k ++ readAt key env slots k
  written k := h.written k ++ writtenAt key env slots k

/-- Nothing has been moved for a connection with the key. -/
structure History.Unused (h : History) (key : Slot → ℕ) (trace : List PumpEvent) (k : ℕ) :
    Prop where
  read : h.read k = []
  delivered : deliveredAt key trace k = []

/-- The accounts of the connections. What a connection held when it was removed is lost. -/
structure Conserved (key : Slot → ℕ) (kt : ℕ) (c : Controller) (h : History) : Prop where
  input : ∀ k, k ≠ kt → ∃ lost, Passes [] (h.read k) (encodedAt key c.trace k) lost ∧
    ∀ s ∈ c.slots, key s = k → lost = s.conn.inBuf.contents
  output : ∀ k, k ≠ kt → ∃ lost, Passes [] (deliveredAt key c.trace k) (h.written k) lost ∧
    ∀ s ∈ c.slots, key s = k → lost = s.conn.outBuf.contents
  tunnel : Passes [] (frameBytes (sentFrames c.trace)) (h.written kt) (outputAt key c.slots kt)

variable {key : Slot → ℕ} {kt : ℕ} {c c' : Controller} {h : History} {env : PollEnv}
  {events : List PumpEvent}

theorem mem_undeleted {slots : List Slot} {s : Slot} :
    s ∈ undeleted slots ↔ s ∈ slots ∧ s.conn.state.delete = false := by
  simp [undeleted]

theorem nodup_undeleted {slots : List Slot} (hnd : (slots.map key).Nodup) :
    ((undeleted slots).map key).Nodup := (List.filter_sublist.map key).nodup hnd

theorem polledBytes_of_delete {s : Slot} (hdel : s.conn.state.delete = true) :
    polledBytes env s = ([], []) := by
  unfold polledBytes
  rw [(enterSlot_eq_none_iff s).mpr hdel]
  cases env.ready <;> rfl

/-- Nothing is polled under a key that no connection has, or only one that is removed. -/
theorem polled_of_gone {slots : List Slot} {k : ℕ} (hgone : ∀ s ∈ undeleted slots, key s ≠ k) :
    readAt key env slots k = [] ∧ writtenAt key env slots k = [] := by
  unfold readAt writtenAt heldAt
  cases hk : entryAt key slots k with
  | none => exact ⟨rfl, rfl⟩
  | some s =>
    obtain ⟨hs, hsk⟩ := mem_of_entryAt hk
    have hdel : s.conn.state.delete = true := by
      by_contra hopen
      exact hgone s (mem_undeleted.mpr ⟨hs, Bool.eq_false_of_not_eq_true hopen⟩) hsk
    rw [Option.elim_some, Option.elim_some, polledBytes_of_delete hdel]
    exact ⟨rfl, rfl⟩

/-- **An update keeps the accounts.** A connection was there before it, or its key has not been
used. -/
theorem Conserved.next (hacc : Conserved key kt c h) (hnd : (c.slots.map key).Nodup)
    (hnd' : (c'.slots.map key).Nodup) (hb : Balanced key kt env c c' events)
    (htunnel : ∃ s ∈ undeleted c.slots, key s = kt)
    (horigin : ∀ s' ∈ c'.slots, (∃ s ∈ undeleted c.slots, key s = key s') ∨
      h.Unused key c.trace (key s')) :
    Conserved key kt c' (h.after key env c.slots) where
  input k hk := by
    obtain ⟨lost, hpasses, hlost⟩ := hacc.input k hk
    rw [hb.trace, encodedAt_append]
    refine hpasses.next (nodup_undeleted hnd) hnd' (fun s hs => hlost s (mem_undeleted.mp hs).1)
      (hb.input k hk) (fun hgone => ?_) fun s' hs' hsk => ?_
    · have hin := hb.input k hk
      rw [inputAt, heldAt_of_forall_ne hgone, (polled_of_gone hgone).1] at hin
      exact (List.append_eq_nil_iff.mp hin.symm).1
    · exact (hsk ▸ horigin s' hs').imp id History.Unused.read
  output k hk := by
    obtain ⟨lost, hpasses, hlost⟩ := hacc.output k hk
    rw [hb.trace, deliveredAt_append]
    refine hpasses.next (nodup_undeleted hnd) hnd' (fun s hs => hlost s (mem_undeleted.mp hs).1)
      (hb.output k hk) (fun hgone => (polled_of_gone hgone).2) fun s' hs' hsk => ?_
    exact (hsk ▸ horigin s' hs').imp id History.Unused.delivered
  tunnel := by
    obtain ⟨s, hs, rfl⟩ := htunnel
    have hsame : outputAt key (undeleted c.slots) (key s) = outputAt key c.slots (key s) := by
      unfold outputAt
      rw [heldAt_of_mem (nodup_undeleted hnd) hs, heldAt_of_mem hnd (mem_undeleted.mp hs).1]
    rw [hb.trace, sentFrames_append, frameBytes_append]
    exact hacc.tunnel.trans (hsame ▸ hb.tunnel)

/-! ### Runs -/

/-- An update before which every input is unwrapped or full, after which no output wraps, and up to
which the peer has not closed the tunnel. -/
structure Plain (c c' : Controller) : Prop where
  input : ∀ s ∈ c.slots, s.conn.inBuf.CanStore
  output : ∀ s ∈ c'.slots, s.conn.outBuf.Unwrapped
  spares : ∀ e ∈ c'.trace, e.SparesTunnel

instance (c c' : Controller) : Decidable (Plain c c') :=
  decidable_of_iff (_ ∧ _ ∧ _) ⟨fun h => ⟨h.1, h.2.1, h.2.2⟩, fun h => ⟨h.1, h.2, h.3⟩⟩

/-- An endpoint after updates of this kind, with the history of its sockets by address of the
connection. -/
inductive Recorded (bufSize : ℕ+) (accepting : Bool) : Controller → History → Prop
  | start (env : StartEnv) : Recorded bufSize accepting (startController env bufSize accepting) {}
  | update {c c' : Controller} {h : History} (env : Env) (hrec : Recorded bufSize accepting c h)
      (hc : update env c = .ok (c', .none)) (hplain : Plain c c') :
      Recorded bufSize accepting c' (h.after Slot.ref env.poll c.slots)

variable {bufSize : ℕ+} {accepting : Bool}

/-- The invariant of such a run. -/
structure RecordedOk (bufSize : ℕ+) (accepting : Bool) (c : Controller) (h : History) : Prop where
  reach : Reach bufSize accepting c
  spares : ∀ e ∈ c.trace, e.SparesTunnel
  conserved : Conserved Slot.ref 0 c h
  unused : ∀ k, c.manager.nextRef ≤ k → h.Unused Slot.ref c.trace k

theorem outputAt_tunnel (env : StartEnv) :
    outputAt Slot.ref (startController env bufSize accepting).slots 0 = [] := by
  have hempty : (tunnelConnection env bufSize).outBuf.contents = [] :=
    (RoundBuffer.contents_eq_nil_iff _).mpr rfl
  exact hempty

theorem recordedOk_start (env : StartEnv) :
    RecordedOk bufSize accepting (startController env bufSize accepting) {} := by
  refine ⟨.start env, by rintro e ⟨⟩, ⟨fun k hk => ⟨[], rfl, fun s hs hsk => ?_⟩,
    fun k hk => ⟨[], rfl, fun s hs hsk => ?_⟩, ?_⟩, fun _ _ => ⟨rfl, rfl⟩⟩
  · rw [List.mem_singleton.mp hs] at hsk
    exact absurd hsk.symm hk
  · rw [List.mem_singleton.mp hs] at hsk
    exact absurd hsk.symm hk
  · rw [outputAt_tunnel]
    rfl

theorem updateFor_zero (env : Env) (c : Controller) : updateFor 0 env c = update env c := rfl

/-- An update of a run keeps its invariant. -/
theorem RecordedOk.update {env : Env} (hok : RecordedOk bufSize accepting c h)
    (hc : PortForwarding.update env c = .ok (c', .none)) (hplain : Plain c c') :
    RecordedOk bufSize accepting c' (h.after Slot.ref env.poll c.slots) := by
  have hwf := (Visit.reach hok.reach).wellFormed
  have hwf' := (Visit.reach (.update env hok.reach hc)).wellFormed
  have htunnel := (Visit.reach hok.reach).tunnelInv hok.spares
  have hkt : ∀ s ∈ c.slots, s.ref = 0 → s.ref = 0 := fun _ _ href => href
  obtain ⟨events, hb⟩ := balanced_updateFor isKey_ref hwf htunnel hkt hwf.nodup hplain.input
    ((updateFor_zero env c).trans hc) ⟨hwf'.nodup, hplain.output⟩
  obtain ⟨m, hpoll, hrun⟩ := update_polled hwf hc
  obtain ⟨hnext, horigin⟩ := hrun.origin (hwf.poll hpoll)
  have hpolled : ∀ s ∈ m.slots, (∃ t ∈ undeleted c.slots, t.ref = s.ref) ∨
      c.manager.nextRef ≤ s.ref := by
    intro s hs
    rcases mem_slots_poll hpoll hs with ⟨t, ht, hdel, hslot⟩ | ⟨hfresh, -⟩
    · exact .inl ⟨t, mem_undeleted.mpr ⟨ht, hdel⟩, hslot.keeps.ref.symm⟩
    · exact .inr hfresh.ref.ge
  have hnext' : c.manager.nextRef ≤ c'.manager.nextRef := (nextRef_poll hpoll).trans hnext
  refine ⟨.update env hok.reach hc, hplain.spares, hok.conserved.next hwf.nodup hwf'.nodup hb ?_
    fun s' hs' => ?_, fun k hk => ?_⟩
  · obtain ⟨s, hs, href, -, hdel⟩ := htunnel.entry
    exact ⟨s, mem_undeleted.mpr ⟨hs, hdel⟩, href⟩
  · rcases horigin s' hs' with ⟨s, hs, href, -⟩ | hnew
    · rw [href]
      exact (hpolled s hs).imp id fun hnew => hok.unused _ hnew
    · exact .inr (hok.unused _ ((nextRef_poll hpoll).trans hnew))
  · have hunused := hok.unused k (hnext'.trans hk)
    have hgone : ∀ s ∈ undeleted c.slots, s.ref ≠ k := fun s hs href => by
      have := hwf.allocated s (mem_undeleted.mp hs).1
      omega
    have hgone' : ∀ s ∈ c'.slots, s.ref ≠ k := fun s hs href => by
      have := hwf'.allocated s hs
      omega
    have hk0 : k ≠ 0 := by
      rintro rfl
      obtain ⟨s, hs, href, -⟩ := htunnel.entry
      have := hwf.allocated s hs
      omega
    have hout := hb.output k hk0
    rw [outputAt, heldAt_of_forall_ne hgone, (polled_of_gone hgone).2, outputAt,
      heldAt_of_forall_ne hgone'] at hout
    refine ⟨?_, ?_⟩
    · change h.read k ++ readAt Slot.ref env.poll c.slots k = []
      rw [hunused.read, (polled_of_gone hgone).1, List.append_nil]
    · rw [hb.trace, deliveredAt_append, hunused.delivered]
      exact hout

theorem Recorded.ok (hrec : Recorded bufSize accepting c h) :
    RecordedOk bufSize accepting c h := by
  induction hrec with
  | start env => exact recordedOk_start env
  | update env _ hc hplain ih => exact ih.update hc hplain

/-- **Connections conserve bytes.** Whatever the peer sends, what has been read from the socket of a
connection has been encoded for the tunnel, in order, but for its unread input, and what has been
delivered to it has been written to its socket, in order, but for its unsent output. The same goes
for the frames and the socket of the tunnel. Of a connection that is gone, the rest is lost. -/
theorem connections_conserve_bytes (hrec : Recorded bufSize accepting c h) :
    (∀ s ∈ c.slots, s.ref ≠ 0 →
      h.read s.ref = encodedAt Slot.ref c.trace s.ref ++ s.conn.inBuf.contents ∧
        deliveredAt Slot.ref c.trace s.ref = h.written s.ref ++ s.conn.outBuf.contents) ∧
      (∀ s ∈ c.slots, s.ref = 0 →
        frameBytes (sentFrames c.trace) = h.written 0 ++ s.conn.outBuf.contents) ∧
      ∀ k, k ≠ 0 → encodedAt Slot.ref c.trace k <+: h.read k ∧
        h.written k <+: deliveredAt Slot.ref c.trace k := by
  have hok := hrec.ok
  have hnd := (Visit.reach hok.reach).wellFormed.nodup
  refine ⟨fun s hs hne => ?_, fun s hs href => ?_, fun k hk => ?_⟩
  · obtain ⟨lost, hin, hlost⟩ := hok.conserved.input s.ref hne
    obtain ⟨lost', hout, hlost'⟩ := hok.conserved.output s.ref hne
    rw [hlost s hs rfl] at hin
    rw [hlost' s hs rfl] at hout
    exact ⟨hin, hout⟩
  · have htunnel := hok.conserved.tunnel
    rw [outputAt, ← href, heldAt_of_mem hnd hs, href] at htunnel
    exact htunnel
  · obtain ⟨lost, hin, -⟩ := hok.conserved.input k hk
    obtain ⟨lost', hout, -⟩ := hok.conserved.output k hk
    exact ⟨hin.initial, hout.initial⟩

/-- The endpoint and the history of its sockets after updates in the given environments, if they are
of this kind. -/
def recordedUpdates : List Env → Controller → History → Option (Controller × History)
  | [], c, h => some (c, h)
  | env :: envs, c, h =>
    match update env c with
    | .ok (c', .none) =>
      if Plain c c' then recordedUpdates envs c' (h.after Slot.ref env.poll c.slots) else none
    | _ => none

theorem recorded_of_updates {envs : List Env} {h' : History} (hrec : Recorded bufSize accepting c h)
    (hrun : recordedUpdates envs c h = some (c', h')) : Recorded bufSize accepting c' h' := by
  induction envs generalizing c h with
  | nil =>
    obtain ⟨rfl, rfl⟩ := Prod.mk.inj (Option.some.inj hrun)
    exact hrec
  | cons env envs ih =>
    unfold recordedUpdates at hrun
    split at hrun
    · rename_i c₁ hupdate
      split_ifs at hrun with hplain
      exact ih (hrec.update env hupdate hplain) hrun
    · cases hrun

/-- Every connection delivers bytes and takes one byte. -/
def clientServes (bs : List UInt8) : PollEnv :=
  { quietPoll with
    ready := some fun _ => ⟨true, true⟩
    sockets :=
      { read := fun ref => if ref = 0 then .error .eagain else .bytes bs
        write := fun _ => .taken 1 } }

/-- A connection is opened, two bytes are delivered to it and one is written; one is read and
encoded. -/
def servedConnection : Option (Controller × History) :=
  recordedUpdates [⟨tunnelReads (commandFrame cmdNew 1), samplePump⟩,
      ⟨tunnelReads (dataFrame 1 [9, endByte]), samplePump⟩, ⟨clientServes [escByte], samplePump⟩]
    (startController sampleStart sampleBufSize false) {}

theorem connections_conserve_bytes_servedConnection : ∃ c h, Recorded 10240 false c h ∧
    h.read 1 = [escByte] ∧ h.written 1 = [9] ∧ deliveredAt Slot.ref c.trace 1 = [9, endByte] ∧
      encodedAt Slot.ref c.trace 1 <+: h.read 1 ∧
      h.written 1 <+: deliveredAt Slot.ref c.trace 1 := by
  have hrun : servedConnection.map (fun r =>
      (r.2.read 1, r.2.written 1, deliveredAt Slot.ref r.1.trace 1)) =
      some ([escByte], [9], [9, endByte]) := by decide +kernel
  obtain ⟨⟨c, h⟩, hc, hbytes⟩ := Option.map_eq_some_iff.mp hrun
  have hrec := recorded_of_updates (.start sampleStart) hc
  simp only [Prod.mk.injEq] at hbytes
  exact ⟨c, h, hrec, hbytes.1, hbytes.2.1, hbytes.2.2,
    (connections_conserve_bytes hrec).2.2 1 Nat.one_ne_zero⟩

end OsTasks.PortForwarding
