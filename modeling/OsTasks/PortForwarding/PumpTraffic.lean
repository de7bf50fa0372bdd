import OsTasks.PortForwarding.Receipt
import OsTasks.PortForwarding.Resume
import OsTasks.PortForwarding.Traffic

/-!
# The bytes that the pump moves

The parts of the pump keep the accounts: what leaves the input of a connection is in the frames
that go to the tunnel, and what comes behind its output is in the events of delivery.

## Main definitions

* `Pumping`: the state of the pump.

## Main results

* `conveys_intake`, `conveys_sendToTunnel`: the two halves of `pump_transfer`.
-/

namespace OsTasks.PortForwarding

variable {key : Slot → ℕ} {kt : ℕ} {c c' : Controller} {events : List PumpEvent}

/-! ### Bytes behind the output -/

theorem unwrapped_of_put {buf : RoundBuffer} {bs : List UInt8} (h : (buf.put bs).Unwrapped) :
    buf.Unwrapped := by
  have hlen := length_put buf bs
  have hle := buf.length_le
  unfold RoundBuffer.Unwrapped at h ⊢
  rw [offset_put, capacity_put] at h
  omega

theorem passes_put {buf : RoundBuffer} (hwrap : buf.Unwrapped) {bs : List UInt8}
    (hbs : bs.length ≤ bufFreeLength buf) : Passes buf.contents bs [] (buf.put bs).contents :=
  (contents_put hwrap hbs).symm

theorem frameBytes_singleton (f : Frame) : frameBytes [f] = f.event.frame := List.append_nil _

/-- Whatever the loop of `decode` reads, it writes one byte after the other. -/
theorem decodeLoop_pushAll (load : ℕ → UInt8) (n : ℕ) (it : BufIter) (i : ℕ) (w : WriteState) :
    ∃ xs, xs.length ≤ n ∧ (decodeLoop load n it i w).2.2 = w.pushAll xs := by
  induction n generalizing it i w with
  | zero => exact ⟨[], Nat.le_refl _, rfl⟩
  | succ n ih =>
    rcases decodeLoop_cases load n it i w with h | ⟨it', i', b, h | h⟩ <;> rw [h]
    · exact ⟨[], Nat.zero_le _, rfl⟩
    · obtain ⟨xs, hlen, hxs⟩ := ih it' i' (w.push b)
      exact ⟨b :: xs, Nat.succ_le_succ hlen, hxs⟩
    · exact ⟨[b], Nat.succ_le_succ (Nat.zero_le n), rfl⟩

/-- `decode` puts bytes behind the output of the connection. -/
theorem decode_put (wild : ℕ → UInt8) (src dst : RoundBuffer) :
    ∃ xs, xs.length ≤ bufFreeLength dst ∧ (decode wild src dst).2.2 = dst.put xs := by
  obtain ⟨xs, hlen, hxs⟩ := decodeLoop_pushAll (src.load wild) (bufFreeLength dst)
    (getReadIter src) 0 dst.writer
  refine ⟨xs, hlen, ?_⟩
  rw [← advance_pushAll hlen, ← hxs]
  rfl

/-! ### The state of the pump -/

/-- The pump has been entered, and the tunnel has the key `kt`. -/
structure Pumping (key : Slot → ℕ) (kt : ℕ) (conns : Conns) (c : Controller) : Prop
    extends PumpReady conns c where
  tunnel : ∀ s ∈ c.slots, conns 0 = some s.ref → key s = kt

@[simp] theorem inc_modifySlot (ref : ℕ) (f : Connection → Connection) (s : Slot) :
    (modifySlot ref f s).inc = s.inc := by
  unfold modifySlot
  split <;> rfl

theorem exists_of_mem_modifyConn {slots : List Slot} {ref : ℕ} {f : Connection → Connection}
    {s' : Slot} (h : s' ∈ modifyConn slots ref f) :
    ∃ s ∈ slots, s'.ref = s.ref ∧ s'.inc = s.inc := by
  obtain ⟨s, hs, rfl⟩ := List.mem_map.mp h
  exact ⟨s, hs, ref_modifySlot ref f s, inc_modifySlot ref f s⟩

theorem forall₂_modify {R : Slot → Slot → Prop} {ref : ℕ} {f : Connection → Connection}
    (h : ∀ s ∈ c.slots, R s (modifySlot ref f s)) :
    List.Forall₂ R c.slots (c.modify ref f).slots :=
  List.forall₂_map_right_iff.mpr (List.forall₂_same.mpr h)

theorem silent_singleton {e : PumpEvent} (hframe : e.frame = none)
    (hbytes : ∀ k, e.takenFrom key k = [] ∧ e.givenTo key k = []) : Silent key [e] where
  encoded k := by rw [encodedAt_singleton, (hbytes k).1]
  delivered k := by rw [deliveredAt_singleton, (hbytes k).2]
  frames := by rw [sentFrames_singleton, hframe]; rfl

section Steps

variable {conns : Conns} {tunnel s : Slot} (hkey : IsKey key)

theorem Pumping.note (h : Pumping key kt conns c) (e : PumpEvent) :
    Pumping key kt conns (c.note e) := ⟨h.toPumpReady.note e, h.tunnel⟩

include hkey in
theorem Pumping.modify (ref : ℕ) {f : Connection → Connection} (h : Pumping key kt conns c)
    (hf : ∀ s ∈ c.slots, s.ref = ref → (f s.conn).id = s.conn.id) :
    Pumping key kt conns (c.modify ref f) := by
  refine ⟨h.toPumpReady.modify ref hf, fun s' hs' hconns => ?_⟩
  obtain ⟨s, hs, rfl⟩ := List.mem_map.mp hs'
  change conns 0 = some (modifySlot ref f s).ref at hconns
  rw [ref_modifySlot] at hconns
  rw [← h.tunnel s hs hconns]
  exact hkey _ _ (ref_modifySlot ref f s) (inc_modifySlot ref f s)

/-- The connection with an id is not the tunnel. -/
theorem Pumping.key_ne (h : Pumping key kt conns c) (hnd : (c.slots.map key).Nodup)
    (ht : lookup c.slots conns 0 = some tunnel) {i : ℕ} (hi : i ≠ 0)
    (hs : lookup c.slots conns i = some s) : key tunnel = kt ∧ key s ≠ kt ∧ s.ref ≠ tunnel.ref := by
  obtain ⟨hmem, hconns⟩ := lookup_eq_some ht
  have hne : s ≠ tunnel := by
    rintro rfl
    have hid := h.entries.id h.nodup hs
    rw [h.entries.tunnel_id h.nodup ht] at hid
    omega
  have hkt := h.tunnel tunnel hmem hconns
  refine ⟨hkt, fun hk => hne ?_, fun href => hne ?_⟩
  · exact List.inj_on_of_nodup_map hnd (lookup_eq_some hs).1 hmem (hk.trans hkt.symm)
  · exact eq_of_ref_eq h.nodup (lookup_eq_some hs).1 hmem href

include hkey in
/-- Bytes leave the input of the tunnel. -/
theorem conveys_tunnelIn (h : Pumping key kt conns c) (ht : conns 0 = some tunnel.ref)
    (f : Connection → RoundBuffer) :
    Conveys key kt c (c.modify tunnel.ref fun conn => { conn with inBuf := f conn }) := by
  refine conveys_of_silent silent_nil (List.append_nil _).symm rfl
    (forall₂_modify fun t htmem => ?_) (by simp)
  refine ⟨hkey _ _ (ref_modifySlot ..) (inc_modifySlot ..), fun hk => ?_, ?_⟩
  · rw [modifySlot_of_ne]
    exact fun href => hk (h.tunnel t htmem (href ▸ ht))
  · unfold modifySlot
    split_ifs <;> rfl

include hkey in
/-- Bytes of a frame are delivered. -/
theorem conveys_deliver (h : Pumping key kt conns c) (env : PumpEnv) {id : ℕ} {tunnel' : Slot}
    (ht : lookup c.slots conns 0 = some tunnel) (href : tunnel'.ref = tunnel.ref) (hid : id ≠ 0)
    (hs : lookup c.slots conns id = some s) :
    Conveys key kt c (c.deliver env id tunnel' s) := by
  let r := decode env.wild tunnel'.conn.inBuf s.conn.outBuf
  let bytes := r.2.2.contents.drop s.conn.outBuf.length
  let f : Connection → Connection := fun conn => { conn with inBuf := r.2.1 }
  let g : Connection → Connection := fun conn => { conn with outBuf := r.2.2 }
  obtain ⟨xs, hxs, hput⟩ := decode_put env.wild tunnel'.conn.inBuf s.conn.outBuf
  have hmem := (lookup_eq_some hs).1
  have hslots : (c.deliver env id tunnel' s).slots =
      c.slots.map fun t => modifySlot s.ref g (modifySlot tunnel.ref f t) := by
    rw [← href]
    exact List.map_map
  have hsame (t : Slot) : key (modifySlot s.ref g (modifySlot tunnel.ref f t)) = key t :=
    hkey _ _ (by simp) (by simp)
  -- the output of the connection is behind what it was
  have hself : (modifySlot s.ref g (modifySlot tunnel.ref f s)).conn.outBuf = r.2.2 := by
    rw [modifySlot_of_eq (ref_modifySlot _ _ s)]
  have hout (t : Slot) (hne : t.ref ≠ s.ref) :
      (modifySlot s.ref g (modifySlot tunnel.ref f t)).conn.outBuf = t.conn.outBuf := by
    rw [modifySlot_of_ne (by simpa using hne)]
    exact outBuf_modifySlot_inBuf ..
  have htrace : (c.deliver env id tunnel' s).trace = [.delivered id 0 s bytes] ++ c.trace := rfl
  refine conveys_of_slots (hslots.trans (List.append_nil _).symm) htrace ?_ ?_ (by simp)
  · rw [List.forall₂_map_right_iff, List.forall₂_same]
    intro t htmem
    refine ⟨hsame t, fun hwrap => ?_⟩
    by_cases hts : t.ref = s.ref
    · rw [eq_of_ref_eq h.nodup htmem hmem hts] at hwrap ⊢
      rw [hself] at hwrap
      exact unwrapped_of_put (hput ▸ hwrap)
    · rwa [hout t hts] at hwrap
  · intro hstraight
    obtain ⟨hkt, hne, hrefs⟩ := h.key_ne hstraight.nodup ht hid hs
    have hcontents : r.2.2.contents = s.conn.outBuf.contents ++ xs :=
      hput ▸ contents_put (hstraight.output s hmem) hxs
    have hbytes : bytes = xs := by
      change r.2.2.contents.drop _ = xs
      rw [hcontents, List.drop_left' (RoundBuffer.length_contents _)]
    refine ⟨?_, fun k _ hk => ⟨rfl, ?_⟩, .inr rfl⟩
    · rw [List.forall₂_map_right_iff, List.forall₂_same]
      intro t htmem
      have hin (hk : key t ≠ kt) :
          (modifySlot s.ref g (modifySlot tunnel.ref f t)).conn.inBuf = t.conn.inBuf := by
        have htr : t.ref ≠ tunnel.ref := fun he => hk (by
          rw [eq_of_ref_eq h.nodup htmem (lookup_eq_some ht).1 he, hkt])
        rw [modifySlot_of_ne htr]
        unfold modifySlot
        split_ifs <;> rfl
      refine ⟨hsame t, fun hk => hin hk ▸ .refl _, fun hk => ?_, fun hk => ?_⟩
      · by_cases hts : t = s
        · rw [hts, hself, deliveredAt_singleton, PumpEvent.givenTo, if_pos rfl, hbytes, hput]
          exact passes_put (hstraight.output s hmem) hxs
        · have hks : key s ≠ key t := fun he =>
            hts (List.inj_on_of_nodup_map hstraight.nodup htmem hmem he.symm)
          rw [hout t fun he => hts (eq_of_ref_eq h.nodup htmem hmem he), deliveredAt_singleton,
            PumpEvent.givenTo, if_neg hks]
          exact .refl _
      · have hts : t.ref ≠ s.ref := fun he => hne (by
          rw [← eq_of_ref_eq h.nodup htmem hmem he, hk])
        rw [hout t hts]
        exact .refl _
    · rw [deliveredAt_singleton, PumpEvent.givenTo, if_neg (hk s hmem)]

include hkey in
theorem Pumping.of_ready (h : Pumping key kt conns c) (hready : PumpReady conns c')
    (hslots : ∀ s' ∈ c'.slots, (∃ s ∈ c.slots, s'.ref = s.ref ∧ s'.inc = s.inc) ∨
      c.manager.nextRef ≤ s'.ref) : Pumping key kt conns c' := by
  refine ⟨hready, fun s' hs' hconns => ?_⟩
  rcases hslots s' hs' with ⟨s, hs, href, hinc⟩ | hnew
  · exact (hkey _ _ href hinc).trans (h.tunnel s hs (href ▸ hconns))
  · obtain ⟨s, hs, href, -⟩ := h.entries _ _ hconns
    have := h.allocated s hs
    omega

include hkey in
theorem Pumping.deliver (h : Pumping key kt conns c) (env : PumpEnv) {id : ℕ} {tunnel' : Slot}
    (ht : lookup c.slots conns 0 = some tunnel) (href : tunnel'.ref = tunnel.ref)
    (hle : tunnel'.conn.inBuf.length ≤ tunnel.conn.inBuf.length)
    (hcap : tunnel'.conn.inBuf.capacity = tunnel.conn.inBuf.capacity) (hid : id ≠ 0)
    (hs : lookup c.slots conns id = some s) :
    Pumping key kt conns (c.deliver env id tunnel' s) := by
  obtain ⟨i, rfl⟩ := Nat.exists_eq_succ_of_ne_zero hid
  have hready := (decodeTo_induction (P := fun _ => True) (fun _ _ _ _ _ => trivial)
    (fun _ _ => trivial) env (i + 1) tunnel' h.toPumpReady ht href hle hcap hs trivial).2
  refine h.of_ready hkey (hready.setSendingTo ?_) fun s' hs' => .inl ?_
  · split_ifs
    · exact .inl rfl
    · exact .inr (by omega)
  · change s' ∈ (decodeTo env (i + 1) tunnel' s c).2.slots at hs'
    rw [slots_decodeTo] at hs'
    obtain ⟨t', ht', href', hinc'⟩ := exists_of_mem_modifyConn hs'
    obtain ⟨t, ht, href, hinc⟩ := exists_of_mem_modifyConn ht'
    exact ⟨t, ht, href'.trans href, hinc'.trans hinc⟩

include hkey in
/-- A command changes no buffer, and may add a connection. -/
theorem conveys_onCommand (h : Pumping key kt conns c) (env : ConnectEnv) (command : Command) :
    Conveys key kt c (onCommand env c command) ∧
      Pumping key kt conns (onCommand env c command) := by
  obtain ⟨opened, heff⟩ := onCommand_effect env c command
  have hready := h.toPumpReady.onCommand env command
  have hsilent : Silent key [.handled command (commandTarget c command) c.freeIds opened] :=
    silent_singleton rfl fun _ => ⟨rfl, rfl⟩
  have hsame : List.Forall₂ (fun s s' => key s' = key s ∧
      (key s ≠ kt → s'.conn.inBuf = s.conn.inBuf) ∧ s'.conn.outBuf = s.conn.outBuf)
        c.slots c.slots := List.forall₂_same.mpr fun _ _ => ⟨rfl, fun _ => rfl, rfl⟩
  rcases heff.slots with
    ⟨s, -, -, hslots, -⟩ | ⟨-, -, ⟨-, hslots, -⟩ | ⟨-, -, s, hslots, hfresh, -⟩⟩
  · refine ⟨conveys_of_silent hsilent (hslots.trans (List.append_nil _).symm) heff.trace ?_
      (by simp),
      h.of_ready hkey hready fun s' hs' => .inl ?_⟩
    · rw [List.forall₂_map_right_iff, List.forall₂_same]
      refine fun t _ => ⟨hkey _ _ (ref_modifySlot ..) (inc_modifySlot ..), fun _ => ?_, ?_⟩ <;>
        unfold modifySlot <;> split_ifs
      · exact inBuf_commandChange ..
      · rfl
      · exact outBuf_commandChange ..
      · rfl
    · rw [hslots] at hs'
      exact exists_of_mem_modifyConn hs'
  · exact ⟨conveys_of_silent hsilent (hslots.trans (List.append_nil _).symm) heff.trace hsame
      (by simp), h.of_ready hkey hready fun s' hs' => .inl ⟨s', hslots ▸ hs', rfl, rfl⟩⟩
  · refine ⟨conveys_of_silent hsilent hslots heff.trace hsame ?_,
      h.of_ready hkey hready fun s' hs' => ?_⟩
    · simpa [RoundBuffer.contents_eq_nil_iff] using ⟨hfresh.inBuf, hfresh.outBuf⟩
    · rw [hslots] at hs'
      rcases List.mem_append.mp hs' with hs' | hs'
      · exact .inl ⟨s', hs', rfl, rfl⟩
      · exact .inr (by rw [List.mem_singleton.mp hs', hfresh.ref])

include hkey in
/-- A command frame is taken and handled. -/
theorem conveys_handleFrame (h : Pumping key kt conns c) (env : ConnectEnv) (tag : ℕ)
    (ht : lookup c.slots conns 0 = some tunnel) (cmd arg : UInt8) :
    Conveys key kt c (c.handleFrame (onTaggedCommand tag env) tunnel cmd arg) ∧
      Pumping key kt conns (c.handleFrame (onTaggedCommand tag env) tunnel cmd arg) := by
  have hconns := (lookup_eq_some ht).2
  let c₁ := (c.modify tunnel.ref fun conn =>
    { conn with inBuf := bufAdvanceReadPtr tunnel.conn.inBuf 3 })
  have h₁ : Pumping key kt conns c₁ := h.modify hkey tunnel.ref fun _ _ _ => rfl
  have hnote : Conveys key kt c₁ (c₁.note (.received cmd arg)) :=
    conveys_of_silent (silent_singleton (e := .received cmd arg) rfl fun _ => ⟨rfl, rfl⟩)
      (List.append_nil _).symm rfl (List.forall₂_same.mpr fun _ _ => ⟨rfl, fun _ => rfl, rfl⟩)
      (by simp)
  obtain ⟨hcommand, h₂⟩ := conveys_onCommand hkey (h₁.note (.received cmd arg)) env ⟨cmd, arg, tag⟩
  exact ⟨(((conveys_tunnelIn hkey h hconns _).trans hnote).trans hcommand).trans
    (conveys_tunnelIn hkey h₂ hconns fun conn => bufAdvanceReadPtr conn.inBuf 2),
    h₂.modify hkey tunnel.ref fun _ _ _ => rfl⟩

include hkey in
theorem conveys_startsFrame {env : PumpEnv} {tag : ℕ} {start : Option FrameStart}
    (h : Pumping key kt conns c)
    (hstarts : StartsFrame (onTaggedCommand tag env.connect) env conns c start c') :
    Conveys key kt c c' ∧ Pumping key kt conns c' := by
  cases hstarts with
  | nothing => exact ⟨.of_same rfl rfl, h⟩
  | command ht => exact conveys_handleFrame hkey h env.connect tag ht _ _
  | @data tunnel target id b b' bytes ht hid hbytes htarget =>
    have hne : id.toNat ≠ 0 := fun hzero => hid (UInt8.toNat_inj.mp hzero)
    have href : tunnel.afterStart.ref = tunnel.ref := rfl
    exact ⟨conveys_deliver hkey h env ht href hne htarget, h.deliver hkey env ht href
      ((length_bufAdvanceReadPtr _ _).trans_le (Nat.sub_le _ _)) (capacity_bufAdvanceReadPtr _ _)
      hne htarget⟩

include hkey in
/-- **Receiving keeps the accounts.** -/
theorem conveys_intake {env : PumpEnv} {tag : ℕ} {t : Taking} (h : Pumping key kt conns c)
    (hintake : Intake (onTaggedCommand tag env.connect) env conns c t c') :
    Conveys key kt c c' ∧ Pumping key kt conns c' := by
  cases hintake with
  | nothing => exact ⟨.of_same rfl rfl, h⟩
  | starts _ hstarts => exact conveys_startsFrame hkey h hstarts
  | goesOn ht _ hid _ htarget =>
    exact ⟨conveys_deliver hkey h env ht rfl (by omega) htarget,
      h.deliver hkey env ht rfl (Nat.le_refl _) rfl (by omega) htarget⟩
  | ends ht _ hid _ htarget _ hstarts =>
    have hdeliver := conveys_deliver hkey h env ht rfl (by omega) htarget
    obtain ⟨hrest, h'⟩ := conveys_startsFrame hkey
      (h.deliver hkey env ht rfl (Nat.le_refl _) rfl (by omega) htarget) hstarts
    exact ⟨hdeliver.trans hrest, h'⟩

theorem PumpReady.sent (h : PumpReady conns c) (hsent : SlotsSent c.slots c'.slots)
    (hnext : c'.manager.nextRef = c.manager.nextRef)
    (hsend : c'.pump.sendingTo = c.pump.sendingTo) : PumpReady conns c' := by
  refine ⟨hsent.map_ref ▸ h.nodup, fun s' hs' => ?_, hsent.entriesAt h.entries, hsend ▸ h.sendingTo⟩
  obtain ⟨g, hslots, hg⟩ := hsent
  rw [hslots] at hs'
  obtain ⟨s, hs, rfl⟩ := List.mem_map.mp hs'
  rw [(hg s hs).ref, hnext]
  exact h.allocated s hs

include hkey in
theorem Pumping.sent (h : Pumping key kt conns c) (hsent : SlotsSent c.slots c'.slots)
    (hnext : c'.manager.nextRef = c.manager.nextRef)
    (hsend : c'.pump.sendingTo = c.pump.sendingTo) : Pumping key kt conns c' := by
  refine h.of_ready hkey (h.toPumpReady.sent hsent hnext hsend) fun s' hs' => .inl ?_
  obtain ⟨g, hslots, hg⟩ := hsent
  rw [hslots] at hs'
  obtain ⟨s, hs, rfl⟩ := List.mem_map.mp hs'
  exact ⟨s, hs, (hg s hs).ref, (hg s hs).inc⟩

include hkey in
/-- A queued command is sent. -/
theorem conveys_sent (h : Pumping key kt conns c) (ht : lookup c.slots conns 0 = some tunnel)
    (command : Command)
    (hok : (encodeCommand tunnel.conn.outBuf command.cmd command.arg).1 = true) :
    Conveys key kt c ((c.modify tunnel.ref fun conn =>
      { conn with outBuf := (encodeCommand tunnel.conn.outBuf command.cmd command.arg).2 }).note
        (.sent command)) := by
  rcases encodeCommand_spec tunnel.conn.outBuf command.cmd command.arg with hnone | ⟨hlen, hsome⟩
  · rw [hnone] at hok
    exact absurd hok Bool.false_ne_true
  rw [hsome]
  obtain ⟨hmem, hconns⟩ := lookup_eq_some ht
  have hkt := h.tunnel tunnel hmem hconns
  let g : Connection → Connection := fun conn =>
    { conn with outBuf := tunnel.conn.outBuf.put (commandFrame command.cmd command.arg) }
  have hsame (t : Slot) : key (modifySlot tunnel.ref g t) = key t :=
    hkey _ _ (ref_modifySlot ..) (inc_modifySlot ..)
  have hin (t : Slot) : (modifySlot tunnel.ref g t).conn.inBuf = t.conn.inBuf := by
    unfold modifySlot
    split_ifs <;> rfl
  have htrace : ((c.modify tunnel.ref g).note (.sent command)).trace =
      [.sent command] ++ c.trace := rfl
  refine conveys_of_slots (List.append_nil _).symm htrace
    (forall₂_modify fun t htmem => ⟨hsame t, fun hwrap => ?_⟩)
    (fun hstraight => ⟨forall₂_modify fun t htmem => ?_, fun _ _ _ => ⟨rfl, rfl⟩,
      .inl ⟨tunnel, hmem, hkt⟩⟩) (by simp)
  · by_cases href : t.ref = tunnel.ref
    · rw [eq_of_ref_eq h.nodup htmem hmem href, modifySlot_self] at hwrap
      rw [eq_of_ref_eq h.nodup htmem hmem href]
      exact unwrapped_of_put hwrap
    · rwa [modifySlot_of_ne href] at hwrap
  · refine ⟨hsame t, fun _ => (hin t).symm ▸ .refl _, fun hk => ?_, fun hk => ?_⟩
    · rw [modifySlot_of_ne fun href => hk (by rw [eq_of_ref_eq h.nodup htmem hmem href, hkt])]
      exact .refl _
    · obtain rfl := List.inj_on_of_nodup_map hstraight.nodup htmem hmem (hk.trans hkt.symm)
      rw [modifySlot_self, sentFrames_singleton, PumpEvent.frame, Option.toList_some,
        frameBytes_singleton]
      exact passes_put (hstraight.output t htmem) hlen

include hkey in
/-- A queued command is sent or lost. -/
theorem conveys_drainCommands (n : ℕ) (h : Pumping key kt conns c) :
    Conveys key kt c (drainCommands conns n c).2 ∧
      Pumping key kt conns (drainCommands conns n c).2 := by
  induction n generalizing c with
  | zero => exact ⟨.of_same rfl rfl, h⟩
  | succ n ih =>
    have hlost : Pumping key kt conns (c.setQueue (cmdqDequeue c.pump.cmdQueue).2) :=
      ⟨⟨h.nodup, h.allocated, h.entries, h.sendingTo⟩, h.tunnel⟩
    unfold drainCommands
    split_ifs with hqueue
    · exact ⟨.of_same rfl rfl, h⟩
    dsimp only
    split
    · exact ⟨.of_same rfl rfl, hlost⟩
    rename_i tunnel ht
    split_ifs with hok
    · let command := (cmdqDequeue c.pump.cmdQueue).1
      let f : Connection → Connection := fun conn =>
        { conn with outBuf := (encodeCommand tunnel.conn.outBuf command.cmd command.arg).2 }
      have hsent := conveys_sent hkey hlost ht command hok
      have hnext : Pumping key kt conns (((c.setQueue (cmdqDequeue c.pump.cmdQueue).2).modify
          tunnel.ref f).note (.sent command)) :=
        (hlost.modify hkey tunnel.ref (f := f) fun _ _ _ => rfl).note _
      obtain ⟨hrest, hend⟩ := ih hnext
      exact ⟨((Conveys.of_same rfl rfl).trans hsent).trans hrest, hend⟩
    · refine ⟨?_, hlost.note _⟩
      have hsilent : Silent key [.dropped (cmdqDequeue c.pump.cmdQueue).1] :=
        silent_singleton rfl fun _ => ⟨rfl, rfl⟩
      exact conveys_of_silent hsilent (List.append_nil _).symm rfl
        (List.forall₂_same.mpr fun _ _ => ⟨rfl, fun _ => rfl, rfl⟩) (by simp)

include hkey in
/-- Bytes of an input are encoded. -/
theorem conveys_encodeTo (h : Pumping key kt conns c) (ht : lookup c.slots conns 0 = some tunnel)
    {i : ℕ} (hi : i ≠ 0) (hs : lookup c.slots conns i = some s)
    (hok : (encode s.conn.inBuf tunnel.conn.outBuf (toByte s.conn.id)).1 = true) :
    Conveys key kt c (c.encodeTo s tunnel) := by
  obtain ⟨hmem, hconns⟩ := lookup_eq_some ht
  have hsmem := (lookup_eq_some hs).1
  rcases encode_spec s.conn.inBuf tunnel.conn.outBuf (toByte s.conn.id) with
    hnone | ⟨hne, hlen, hsome⟩
  · have hempty : bufEmpty s.conn.inBuf = true := by rwa [hnone] at hok
    refine .of_same ?_ (by rw [trace_encodeTo, if_pos hempty])
    exact slots_encodeTo_of_empty h.nodup hsmem hmem ((bufEmpty_iff _).mp hempty)
  · let bytes := takenBytes s.conn.inBuf tunnel.conn.outBuf
    let f : Connection → Connection := fun conn =>
      { conn with inBuf := bufAdvanceReadPtr s.conn.inBuf bytes.length }
    let g : Connection → Connection := fun conn =>
      { conn with outBuf := tunnel.conn.outBuf.put (dataFrame (toByte s.conn.id) bytes) }
    have hslots : (c.encodeTo s tunnel).slots =
        c.slots.map fun t => modifySlot tunnel.ref g (modifySlot s.ref f t) := by
      rw [slots_encodeTo, hsome]
      exact List.map_map
    have hbytes : bytes = s.conn.inBuf.contents.take bytes.length :=
      takenBytes_eq s.conn.inBuf tunnel.conn.outBuf
    have htrace : (c.encodeTo s tunnel).trace = [.encoded s bytes] ++ c.trace := by
      rw [trace_encodeTo, if_neg (fun he => hne ((bufEmpty_iff _).mp he)), hsome]
      dsimp only
      rw [length_bufAdvanceReadPtr, Nat.sub_sub_self (length_takenBytes_le _ _), ← hbytes]
      rfl
    have hsame (t : Slot) : key (modifySlot tunnel.ref g (modifySlot s.ref f t)) = key t :=
      hkey _ _ (by simp) (by simp)
    have hout (t : Slot) (hne : t.ref ≠ tunnel.ref) :
        (modifySlot tunnel.ref g (modifySlot s.ref f t)).conn.outBuf = t.conn.outBuf := by
      rw [modifySlot_of_ne (by simpa using hne)]
      exact outBuf_modifySlot_inBuf ..
    have hself : (modifySlot tunnel.ref g (modifySlot s.ref f tunnel)).conn.outBuf =
        tunnel.conn.outBuf.put (dataFrame (toByte s.conn.id) bytes) := by
      rw [modifySlot_of_eq (ref_modifySlot _ _ tunnel)]
    refine conveys_of_slots (hslots.trans (List.append_nil _).symm) htrace ?_ ?_ (by simp)
    · rw [List.forall₂_map_right_iff, List.forall₂_same]
      refine fun t htmem => ⟨hsame t, fun hwrap => ?_⟩
      by_cases href : t.ref = tunnel.ref
      · rw [eq_of_ref_eq h.nodup htmem hmem href] at hwrap ⊢
        exact unwrapped_of_put (hself ▸ hwrap)
      · rwa [hout t href] at hwrap
    · intro hstraight
      obtain ⟨hkt, hks, href⟩ := h.key_ne hstraight.nodup ht hi hs
      refine ⟨?_, fun k _ hk => ⟨?_, rfl⟩, .inl ⟨tunnel, hmem, hkt⟩⟩
      · rw [List.forall₂_map_right_iff, List.forall₂_same]
        refine fun t htmem => ⟨hsame t, fun hk => ?_, fun hk => ?_, fun hk => ?_⟩
        · have htr : (modifySlot s.ref f t).ref ≠ tunnel.ref := by
            rw [ref_modifySlot]
            exact fun he => hk (by rw [eq_of_ref_eq h.nodup htmem hmem he, hkt])
          rw [modifySlot_of_ne htr, encodedAt_singleton, PumpEvent.takenFrom]
          by_cases hts : t = s
          · rw [hts, modifySlot_self, if_pos rfl]
            change s.conn.inBuf.contents ++ [] =
              bytes ++ (bufAdvanceReadPtr s.conn.inBuf bytes.length).contents
            rw [contents_bufAdvanceReadPtr, List.append_nil]
            conv_rhs => rw [hbytes]
            rw [List.length_take, min_eq_left (by
              rw [RoundBuffer.length_contents]
              exact length_takenBytes_le _ _), List.take_append_drop]
          · rw [modifySlot_of_ne fun he => hts (eq_of_ref_eq h.nodup htmem hsmem he),
              if_neg fun he => hts (List.inj_on_of_nodup_map hstraight.nodup htmem hsmem he.symm)]
            exact .refl _
        · rw [hout t fun he => hk (by rw [eq_of_ref_eq h.nodup htmem hmem he, hkt])]
          exact .refl _
        · obtain rfl := List.inj_on_of_nodup_map hstraight.nodup htmem hmem (hk.trans hkt.symm)
          rw [hself, sentFrames_singleton, PumpEvent.frame, Option.toList_some,
            frameBytes_singleton]
          exact passes_put (hstraight.output t htmem) hlen
      · rw [encodedAt_singleton, PumpEvent.takenFrom, if_neg (hk s hsmem)]

include hkey in
/-- The inputs of the connections are encoded. -/
theorem conveys_encodeConnections (index : ℕ) (is : List ℕ) (h : Pumping key kt conns c) :
    Conveys key kt c (encodeConnections conns index is c) := by
  induction is generalizing c with
  | nil => exact .of_same rfl rfl
  | cons i is ih =>
    cases hs : lookup c.slots conns ((index + i) % 255 + 1) with
    | none =>
      rw [encodeConnections, hs]
      exact ih h
    | some s =>
      cases ht : lookup c.slots conns 0 with
      | none =>
        rw [encodeConnections, hs, ht]
        exact ih h
      | some tunnel =>
        rw [encodeConnections_cons index i is hs ht]
        split_ifs with hdead hok
        · exact ih h
        · have hsent := (encodeTo_sent h.nodup h.entries hs ht).1
          have hnext : (c.encodeTo s tunnel).manager.nextRef = c.manager.nextRef := by
            unfold Controller.encodeTo
            dsimp only
            split <;> rfl
          exact (conveys_encodeTo hkey h ht (Nat.succ_ne_zero _) hs hok).trans
            (ih (h.sent hkey hsent hnext (sendingTo_encodeTo s tunnel)))
        · exact .of_same rfl rfl

include hkey in
/-- **Sending keeps the accounts.** -/
theorem conveys_sendToTunnel (h : Pumping key kt conns c) :
    Conveys key kt c (sendToTunnel conns c) := by
  obtain ⟨hdrain, h'⟩ := conveys_drainCommands hkey (cmdqLength c.pump.cmdQueue) h
  exact sendToTunnel_of_drained (P := Conveys key kt c) hdrain
    (hdrain.trans (conveys_encodeConnections hkey _ _ h'))

end Steps

end OsTasks.PortForwarding
