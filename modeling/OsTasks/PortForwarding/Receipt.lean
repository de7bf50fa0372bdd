import Mathlib.Data.List.Find
import OsTasks.PortForwarding.Receive
import OsTasks.PortForwarding.Updates

/-!
# What receiving from the tunnel leaves alone

`recv_from_tunnel` takes bytes from the input of the tunnel, adds bytes to the output of one
connection, or lets the controller handle one command. It touches no other input, leaves the output
of the tunnel as it is, and only adds to the command queue. What `pump_transfer` does after it can
so be stated in terms of the state before the call.

## Main definitions

* `PumpReady`: what `pump_transfer` relies on.
* `ReceiptStep`, `Receipt`: a connection, and an endpoint, after receiving.

## Main results

* `recvFromTunnel_induction`: what the steps of receiving keep, receiving keeps.
* `recvFromTunnel_receipt`: receiving changes an endpoint in this way.
-/

namespace OsTasks.PortForwarding

variable {conns : Conns} {c c₁ c₂ : Controller}

/-! ### The state in which the pump is entered -/

/-- What `pump_transfer` relies on: the objects are different, the array is sorted by id, and a
frame in progress is not for the tunnel. -/
structure PumpReady (conns : Conns) (c : Controller) : Prop where
  nodup : (c.slots.map Slot.ref).Nodup
  allocated : ∀ s ∈ c.slots, s.ref < c.manager.nextRef
  entries : EntriesAt conns c.slots
  sendingTo : c.pump.sendingTo = -1 ∨ 1 ≤ c.pump.sendingTo

theorem WellFormed.pumpReady (h : WellFormed c) (hconns : ConnsOk conns c.slots) :
    PumpReady conns c :=
  ⟨h.nodup, h.allocated, hconns.entriesAt, h.sendingTo.imp id And.left⟩

/-- An endpoint enters the pump in such a state. -/
theorem Reach.pumpReady {bufSize : ℕ+} {accepting : Bool} {env : PollEnv}
    (h : Reach bufSize accepting c) (hc : pumpEntry env c = some (c₁, conns)) :
    PumpReady conns c₁ := by
  have hentry := beforeTransfer_of_pumpEntry hc
  exact (Visit.entry h hentry).wellFormed.pumpReady
    ((beforeTransfer_run (Visit.reach h).wellFormed hentry).2 conns rfl)

/-! ### After receiving -/

/-- A slot after receiving. The tunnel has the id `0`. -/
structure ReceiptStep (s s' : Slot) : Prop where
  ref : s'.ref = s.ref
  id : s'.conn.id = s.conn.id
  input : s.conn.id ≠ 0 → s'.conn.inBuf = s.conn.inBuf
  unread : s'.conn.inBuf.length ≤ s.conn.inBuf.length
  output : s.conn.id = 0 → s'.conn.outBuf = s.conn.outBuf

theorem ReceiptStep.refl (s : Slot) : ReceiptStep s s :=
  ⟨rfl, rfl, fun _ => rfl, Nat.le_refl _, fun _ => rfl⟩

theorem ReceiptStep.trans {s t u : Slot} (h : ReceiptStep s t) (h' : ReceiptStep t u) :
    ReceiptStep s u where
  ref := h'.ref.trans h.ref
  id := h'.id.trans h.id
  input hid := (h'.input (h.id ▸ hid)).trans (h.input hid)
  unread := h'.unread.trans h.unread
  output hid := (h'.output (h.id ▸ hid)).trans (h.output hid)

/-- The events of receiving. -/
def PumpEvent.IsReceipt : PumpEvent → Prop
  | .received .. | .handled .. | .delivered .. => True
  | .queued .. | .sent .. | .dropped .. | .encoded .. => False

/-- An endpoint after receiving. -/
structure Receipt (c c₁ : Controller) : Prop where
  slots : ∃ g new, c₁.slots = c.slots.map g ++ new ∧ ∀ s ∈ c.slots, ReceiptStep s (g s)
  queue : ∃ added, c₁.pump.cmdQueue.contents = c.pump.cmdQueue.contents ++ added
  currentIndex : c₁.pump.currentIndex = c.pump.currentIndex
  trace : ∃ events, c₁.trace = events ++ c.trace ∧ ∀ e ∈ events, e.IsReceipt

theorem Receipt.refl (c : Controller) : Receipt c c :=
  ⟨⟨fun s => s, [], by rw [List.map_id', List.append_nil], fun s _ => .refl s⟩,
    ⟨[], (List.append_nil _).symm⟩, rfl, [], rfl, fun _ he => absurd he List.not_mem_nil⟩

theorem Receipt.trans (h : Receipt c c₁) (h' : Receipt c₁ c₂) : Receipt c c₂ := by
  obtain ⟨⟨g, new, hslots, hg⟩, ⟨added, hadded⟩, hindex, events, htrace, hevents⟩ := h
  obtain ⟨⟨g', new', hslots', hg'⟩, ⟨added', hadded'⟩, hindex', events', htrace', hevents'⟩ := h'
  refine ⟨⟨g' ∘ g, new.map g' ++ new', ?_, fun s hs => (hg s hs).trans (hg' _ ?_)⟩,
    ⟨added ++ added', by rw [hadded', hadded, List.append_assoc]⟩, hindex'.trans hindex,
    events' ++ events, by rw [htrace', htrace, List.append_assoc], fun e he => ?_⟩
  · rw [hslots', hslots, List.map_append, List.map_map, List.append_assoc]
  · rw [hslots]
    exact List.mem_append_left _ (List.mem_map_of_mem hs)
  · exact (List.mem_append.mp he).elim (hevents' e) (hevents e)

theorem findSlot_map {slots : List Slot} {g : Slot → Slot} (hg : ∀ s ∈ slots, (g s).ref = s.ref)
    (ref : ℕ) : findSlot (slots.map g) ref = (findSlot slots ref).map g := by
  rw [findSlot, findSlot, List.find?_map]
  exact congrArg _ (List.find?_congr fun s hs => congrArg (· == ref) (hg s hs))

/-- What a pointer points to after receiving. -/
theorem Receipt.lookup (h : Receipt c c₁) {i : ℕ} {s : Slot}
    (hs : lookup c.slots conns i = some s) :
    ∃ s', PortForwarding.lookup c₁.slots conns i = some s' ∧ ReceiptStep s s' := by
  obtain ⟨g, new, hslots, hg⟩ := h.slots
  obtain ⟨ref, hconns, hfind⟩ := Option.bind_eq_some_iff.mp hs
  have hfind' : findSlot (c.slots.map g) ref = some (g s) := by
    rw [findSlot_map fun t ht => (hg t ht).ref, hfind, Option.map_some]
  refine ⟨g s, ?_, hg s (mem_of_findSlot hfind)⟩
  rw [PortForwarding.lookup, hconns, Option.bind_some, hslots, findSlot, List.find?_append]
  exact Option.or_of_isSome (by rw [← findSlot, hfind']; rfl) |>.trans hfind'

/-! ### The steps of receiving -/

/-- A change of the buffers of one connection in receiving. -/
structure TakeStep (s s' : Slot) : Prop extends BufferStep s s', ReceiptStep s s'

/-- A change of one object that keeps its id. -/
theorem PumpReady.modify (ref : ℕ) {f : Connection → Connection} (h : PumpReady conns c)
    (hf : ∀ s ∈ c.slots, s.ref = ref → (f s.conn).id = s.conn.id) :
    PumpReady conns (c.modify ref f) := by
  have hslots : (c.modify ref f).slots = c.slots.map (modifySlot ref f) := rfl
  refine ⟨?_, ?_, ?_, h.sendingTo⟩
  · change ((modifyConn c.slots ref f).map Slot.ref).Nodup
    rw [map_ref_modifyConn]
    exact h.nodup
  · rw [hslots]
    intro s' hs'
    obtain ⟨s, hs, rfl⟩ := List.mem_map.mp hs'
    exact (ref_modifySlot ref f s).trans_lt (h.allocated s hs)
  · refine h.entries.map fun s hs => ⟨ref_modifySlot ref f s, ?_⟩
    change (modifySlot ref f s).conn.id = s.conn.id
    by_cases href : s.ref = ref
    · rw [modifySlot_of_eq href]
      exact hf s hs href
    · rw [modifySlot_of_ne href]

theorem PumpReady.note (h : PumpReady conns c) (e : PumpEvent) : PumpReady conns (c.note e) :=
  ⟨h.nodup, h.allocated, h.entries, h.sendingTo⟩

theorem PumpReady.setSendingTo {id : ℤ} (h : PumpReady conns c) (hid : id = -1 ∨ 1 ≤ id) :
    PumpReady conns (c.setSendingTo id) :=
  ⟨h.nodup, h.allocated, h.entries, hid⟩

theorem PumpReady.onCommand (env : ConnectEnv) (command : Command) (h : PumpReady conns c) :
    PumpReady conns (onCommand env c command) := by
  obtain ⟨opened, heff⟩ := onCommand_effect env c command
  have hentries := h.entries.onCommand env command
  have hsend := heff.sendingTo ▸ h.sendingTo
  rcases heff.slots with ⟨s, -, -, hslots, hnext, -⟩ |
    ⟨-, -, ⟨-, hslots, hnext⟩ | ⟨-, -, s, hslots, hfresh, hnext⟩⟩
  · refine ⟨?_, ?_, hentries, hsend⟩
    · rw [hslots, ← modifyConn_eq_map, map_ref_modifyConn]
      exact h.nodup
    · rw [hslots, hnext]
      intro t' ht'
      obtain ⟨t, ht, rfl⟩ := List.mem_map.mp ht'
      exact (ref_modifySlot ..).trans_lt (h.allocated t ht)
  · refine ⟨hslots ▸ h.nodup, ?_, hentries, hsend⟩
    rw [hslots]
    exact fun t ht => (h.allocated t ht).trans_le hnext
  · refine ⟨?_, ?_, hentries, hsend⟩
    · rw [hslots]
      exact nodup_append_fresh h.nodup h.allocated hfresh.ref
    · rw [hslots, hnext]
      intro t ht
      rcases List.mem_append.mp ht with ht | ht
      · exact (h.allocated t ht).trans (Nat.lt_succ_self _)
      · rw [List.mem_singleton.mp ht, hfresh.ref]
        exact Nat.lt_succ_self _

/-- Taking bytes from the input of the tunnel. -/
theorem PumpReady.takeStep_tunnel (h : PumpReady conns c) {tunnel s : Slot}
    (htunnel : lookup c.slots conns 0 = some tunnel) (hs : s ∈ c.slots) (href : s.ref = tunnel.ref)
    {buf : RoundBuffer} (hle : buf.length ≤ s.conn.inBuf.length) :
    TakeStep s { s with conn := { s.conn with inBuf := buf } } := by
  obtain rfl := eq_of_ref_eq h.nodup hs (lookup_eq_some htunnel).1 href
  have hid := h.entries.tunnel_id h.nodup htunnel
  exact ⟨⟨rfl, rfl, rfl, rfl, rfl, rfl, rfl, rfl, Nat.le_refl _⟩, fun hne => absurd hid hne, hle,
    fun _ => rfl⟩

/-! ### An induction over receiving -/

section Induction

variable {P : Controller → Prop}
  (hmodify : ∀ {c : Controller} (ref : ℕ) (f : Connection → Connection), PumpReady conns c →
    (∀ s ∈ c.slots, s.ref = ref → TakeStep s { s with conn := f s.conn } ∧
      (f s.conn).inBuf.capacity = s.conn.inBuf.capacity) → P c → P (c.modify ref f))
  (hnote : ∀ {c : Controller} {e : PumpEvent}, e.IsReceipt → P c → P (c.note e))

include hmodify hnote in
/-- Bytes of the tunnel that are delivered. -/
theorem decodeTo_induction (env : PumpEnv) (id : ℕ) (tunnel' : Slot) {tunnel target : Slot}
    (h : PumpReady conns c) {i : ℕ} (htunnel : lookup c.slots conns 0 = some tunnel)
    (href : tunnel'.ref = tunnel.ref) (hle : tunnel'.conn.inBuf.length ≤ tunnel.conn.inBuf.length)
    (hcap : tunnel'.conn.inBuf.capacity = tunnel.conn.inBuf.capacity)
    (htarget : lookup c.slots conns (i + 1) = some target) (hP : P c) :
    P (decodeTo env id tunnel' target c).2 ∧
      PumpReady conns (decodeTo env id tunnel' target c).2 := by
  let r := decode env.wild tunnel'.conn.inBuf target.conn.outBuf
  have hlen : r.2.1.length ≤ tunnel.conn.inBuf.length :=
    ((length_bufAdvanceReadPtr _ _).trans_le (Nat.sub_le _ _)).trans hle
  have h₁ := h.modify tunnel'.ref (f := fun conn => { conn with inBuf := r.2.1 }) fun _ _ _ => rfl
  have hP₁ := hmodify tunnel'.ref (fun conn => { conn with inBuf := r.2.1 }) h (fun s hs hsref => by
    obtain rfl := eq_of_ref_eq h.nodup hs (lookup_eq_some htunnel).1 (hsref.trans href)
    exact ⟨h.takeStep_tunnel htunnel hs rfl hlen, (capacity_bufAdvanceReadPtr _ _).trans hcap⟩) hP
  have h₂ := h₁.modify target.ref (f := fun conn => { conn with outBuf := r.2.2 })
    fun _ _ _ => rfl
  have hP₂ := hmodify target.ref (fun conn => { conn with outBuf := r.2.2 }) h₁
    (fun s' hs' hsref => by
      obtain ⟨t, ht, htref, hid⟩ := h₁.entries (i + 1) target.ref (lookup_eq_some htarget).2
      obtain rfl := eq_of_ref_eq h₁.nodup hs' ht (hsref.trans htref.symm)
      have hout : s'.conn.outBuf = target.conn.outBuf := by
        obtain ⟨u, hu, rfl⟩ := List.mem_map.mp hs'
        have huref : u.ref = target.ref := by
          rw [← hsref]
          split <;> rfl
        rw [← eq_of_ref_eq h.nodup hu (lookup_eq_some htarget).1 huref]
        split <;> rfl
      refine ⟨⟨⟨rfl, rfl, rfl, rfl, rfl, rfl, rfl, rfl, ?_⟩, fun _ => rfl, Nat.le_refl _,
        fun hzero => absurd hzero (by omega)⟩, rfl⟩
      rw [hout]
      exact length_decode ..) hP₁
  exact ⟨hnote trivial hP₂, h₂.note _⟩

variable {env : PumpEnv} (hsending : ∀ {c : Controller} (id : ℤ), P c → P (c.setSendingTo id))
  (hcommand : ∀ {c : Controller} (cmd arg : UInt8), PumpReady conns c → P c →
    P (onCommand env.connect c ⟨cmd, arg, 0⟩))

include hmodify hnote hsending hcommand in
/-- Taking a new frame. -/
theorem nextFrame_induction (h : PumpReady conns c) (hP : P c)
    (hc : nextFrame (onCommand env.connect) env conns c = .ok c₁) :
    P c₁ ∧ PumpReady conns c₁ := by
  unfold nextFrame at hc
  split at hc
  · cases hc
  rename_i tunnel htunnel
  dsimp only at hc
  split_ifs at hc with havail hstart hzero hfew
  · cases hc
    exact ⟨hP, h⟩
  · -- a command: its bytes are taken in two steps, around the handler
    cases hc
    have h₁ := h.modify tunnel.ref
      (f := fun conn => { conn with inBuf := bufAdvanceReadPtr tunnel.conn.inBuf 3 })
      fun _ _ _ => rfl
    have hP₁ := hmodify tunnel.ref
      (fun conn => { conn with inBuf := bufAdvanceReadPtr tunnel.conn.inBuf 3 }) h
      (fun s hs href => by
        obtain rfl := eq_of_ref_eq h.nodup hs (lookup_eq_some htunnel).1 href
        exact ⟨h.takeStep_tunnel htunnel hs rfl
          ((length_bufAdvanceReadPtr _ _).trans_le (Nat.sub_le _ _)),
          capacity_bufAdvanceReadPtr _ _⟩) hP
    let cmd := ((bufPeek tunnel.conn.inBuf 3).getD []).getD 2 0
    let arg := (bufPeekByte (bufAdvanceReadPtr tunnel.conn.inBuf 3)).getD 0
    have h₂ := h₁.note (.received cmd arg)
    have h₃ := h₂.onCommand env.connect ⟨cmd, arg, 0⟩
    have hP₃ := hcommand cmd arg h₂ (hnote trivial hP₁)
    refine ⟨hmodify tunnel.ref (fun conn => { conn with inBuf := bufAdvanceReadPtr conn.inBuf 2 })
      h₃ (fun s hs href => ?_) hP₃, h₃.modify tunnel.ref fun _ _ _ => rfl⟩
    obtain ⟨t, ht, htref, htid⟩ := h₃.entries 0 tunnel.ref (lookup_eq_some htunnel).2
    obtain rfl := eq_of_ref_eq h₃.nodup hs ht (href.trans htref.symm)
    exact ⟨⟨⟨rfl, rfl, rfl, rfl, rfl, rfl, rfl, rfl, Nat.le_refl _⟩, fun hne => absurd htid hne,
      (length_bufAdvanceReadPtr _ _).trans_le (Nat.sub_le _ _), fun _ => rfl⟩,
      capacity_bufAdvanceReadPtr _ _⟩
  · -- the start of a data frame
    split at hc
    · cases hc
    rename_i target htarget
    have hpos : ((bufPeek tunnel.conn.inBuf 3).getD []).getD 1 0 ≠ 0 := hzero
    obtain ⟨i, hi⟩ : ∃ i, (((bufPeek tunnel.conn.inBuf 3).getD []).getD 1 0).toNat = i + 1 :=
      Nat.exists_eq_succ_of_ne_zero fun hnat => hpos (UInt8.toNat_inj.mp hnat)
    obtain ⟨hP₁, h₁⟩ := decodeTo_induction hmodify hnote env (i + 1) tunnel.afterStart h
      htunnel rfl ((length_bufAdvanceReadPtr _ _).trans_le (Nat.sub_le _ _))
      (capacity_bufAdvanceReadPtr _ _) (hi ▸ htarget) hP
    rw [hi] at hc
    split_ifs at hc <;> cases hc
    · exact ⟨hP₁, h₁⟩
    · exact ⟨hsending _ hP₁, h₁.setSendingTo (.inr (by omega))⟩
  · cases hc
    exact ⟨hP, h⟩

include hmodify hnote hsending hcommand in
/-- **What the steps of receiving keep, receiving keeps.** -/
theorem recvFromTunnel_induction (h : PumpReady conns c) (hP : P c)
    (hc : recvFromTunnel (onCommand env.connect) env conns c = .ok c₁) :
    P c₁ ∧ PumpReady conns c₁ := by
  unfold recvFromTunnel at hc
  split at hc
  · cases hc
  rename_i tunnel htunnel
  split_ifs at hc with hempty hsend
  · cases hc
    exact ⟨hP, h⟩
  · split at hc
    · cases hc
    rename_i target htarget
    have hpos := h.sendingTo.resolve_left hsend
    obtain ⟨i, hi⟩ : ∃ i, c.pump.sendingTo.toNat = i + 1 := Nat.exists_eq_succ_of_ne_zero (by omega)
    obtain ⟨hP₁, h₁⟩ := decodeTo_induction hmodify hnote env (i + 1) tunnel h htunnel rfl
      (Nat.le_refl _) rfl (hi ▸ htarget) hP
    dsimp only at hc
    rw [hi] at hc
    split_ifs at hc
    · exact nextFrame_induction hmodify hnote hsending hcommand (h₁.setSendingTo (.inl rfl))
        (hsending _ hP₁) hc
    · cases hc
      exact ⟨hP₁, h₁⟩
  · exact nextFrame_induction hmodify hnote hsending hcommand h hP hc

end Induction

/-! ### What receiving changes -/

/-- An answer to the peer is behind the queued commands, or it is lost. -/
theorem contents_sendOrWarn (c : Controller) (command : Command) :
    ∃ added, (sendOrWarn c command).pump.cmdQueue.contents =
      c.pump.cmdQueue.contents ++ added := by
  unfold sendOrWarn sendCommand
  cases hq : cmdqEnqueue c.pump.cmdQueue command with
  | none => exact ⟨[], (List.append_nil _).symm⟩
  | some q => exact ⟨[command], contents_cmdqEnqueue hq⟩

theorem pump_onCommand (env : ConnectEnv) (c : Controller) (command : Command) :
    (∃ added, (onCommand env c command).pump.cmdQueue.contents =
      c.pump.cmdQueue.contents ++ added) ∧
      (onCommand env c command).pump.currentIndex = c.pump.currentIndex := by
  cases htarget : commandTarget c command with
  | some s =>
    rw [onCommand_of_some htarget]
    exact ⟨⟨[], (List.append_nil _).symm⟩, rfl⟩
  | none =>
    by_cases hcmd : command.cmd = cmdNew
    · obtain ⟨q, hq⟩ := onCommand_connect env htarget hcmd
      refine ⟨?_, by rw [hq]; rfl⟩
      rw [onCommand_new htarget hcmd]
      exact contents_sendOrWarn _ _
    · rw [onCommand_of_none htarget hcmd]
      exact ⟨⟨[], (List.append_nil _).symm⟩, rfl⟩

/-- A change of one object that is a step of receiving. -/
theorem receipt_modify (ref : ℕ) {f : Connection → Connection}
    (hf : ∀ s ∈ c.slots, s.ref = ref → ReceiptStep s { s with conn := f s.conn }) :
    Receipt c (c.modify ref f) := by
  have hstep : ∀ s ∈ c.slots, ReceiptStep s (modifySlot ref f s) := by
    intro s hs
    by_cases href : s.ref = ref
    · rw [modifySlot_of_eq href]
      exact hf s hs href
    · rw [modifySlot_of_ne href]
      exact .refl s
  have hslots : (c.modify ref f).slots = c.slots.map (modifySlot ref f) := rfl
  exact ⟨⟨modifySlot ref f, [], by rw [hslots, List.append_nil], hstep⟩,
    ⟨[], (List.append_nil _).symm⟩, rfl, [], rfl, fun _ he => absurd he List.not_mem_nil⟩

theorem receipt_note {e : PumpEvent} (he : e.IsReceipt) : Receipt c (c.note e) :=
  { Receipt.refl c with trace := ⟨[e], rfl, fun _ hm => List.mem_singleton.mp hm ▸ he⟩ }

theorem receipt_setSendingTo (id : ℤ) : Receipt c (c.setSendingTo id) := { Receipt.refl c with }

/-- A command that is handled. -/
theorem receipt_onCommand (env : ConnectEnv) (command : Command) :
    Receipt c (onCommand env c command) := by
  obtain ⟨opened, heff⟩ := onCommand_effect env c command
  obtain ⟨hqueue, hindex⟩ := pump_onCommand env c command
  have htrace : ∃ events, (onCommand env c command).trace = events ++ c.trace ∧
      ∀ e ∈ events, e.IsReceipt := by
    refine ⟨[_], heff.trace, fun e he => ?_⟩
    rw [List.mem_singleton.mp he]
    trivial
  have hslots : ∃ g new, (onCommand env c command).slots = c.slots.map g ++ new ∧
      ∀ s ∈ c.slots, ReceiptStep s (g s) := by
    rcases heff.slots with ⟨s, -, -, hslots, -⟩ | ⟨-, -, ⟨-, hslots, -⟩ | ⟨-, -, s, hslots, -⟩⟩
    · refine ⟨_, [], by rw [hslots, List.append_nil], fun t _ => ?_⟩
      unfold modifySlot
      split_ifs
      · exact ⟨rfl, id_commandChange .., fun _ => inBuf_commandChange ..,
          (congrArg _ (inBuf_commandChange ..)).le, fun _ => outBuf_commandChange ..⟩
      · exact .refl t
    · exact ⟨fun t => t, [], by rw [hslots, List.map_id', List.append_nil], fun t _ => .refl t⟩
    · exact ⟨fun t => t, [s], by rw [hslots, List.map_id'], fun t _ => .refl t⟩
  exact ⟨hslots, hqueue, hindex, htrace⟩

/-- Taking a new frame. -/
theorem nextFrame_receipt {env : PumpEnv} (h : PumpReady conns c)
    (hc : nextFrame (onCommand env.connect) env conns c = .ok c₁) :
    Receipt c c₁ ∧ PumpReady conns c₁ :=
  nextFrame_induction
    (fun ref _ _ hf hc => hc.trans (receipt_modify ref fun s hs href =>
      (hf s hs href).1.toReceiptStep))
    (fun he hc => hc.trans (receipt_note he)) (fun id hc => hc.trans (receipt_setSendingTo id))
    (fun cmd arg _ hc => hc.trans (receipt_onCommand env.connect ⟨cmd, arg, 0⟩)) h (.refl c) hc

/-- **Receiving.** -/
theorem recvFromTunnel_receipt {env : PumpEnv} (h : PumpReady conns c)
    (hc : recvFromTunnel (onCommand env.connect) env conns c = .ok c₁) :
    Receipt c c₁ ∧ PumpReady conns c₁ :=
  recvFromTunnel_induction
    (fun ref _ _ hf hc => hc.trans (receipt_modify ref fun s hs href =>
      (hf s hs href).1.toReceiptStep))
    (fun he hc => hc.trans (receipt_note he)) (fun id hc => hc.trans (receipt_setSendingTo id))
    (fun cmd arg _ hc => hc.trans (receipt_onCommand env.connect ⟨cmd, arg, 0⟩)) h (.refl c) hc

end OsTasks.PortForwarding
