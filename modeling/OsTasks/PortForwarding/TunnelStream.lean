import OsTasks.PortForwarding.BackPressure
import OsTasks.PortForwarding.UpdateTraffic

/-!
# The frames that a stream of bytes carries

`recv_from_tunnel` sees the part of the stream that has arrived. As long as this part does not break
off inside an escaped byte, the frames that it takes are the oldest ones in the stream, and what it
delivers of them is the front of their payload.

## Main definitions

* `Frame.payload`, `payloadAt`: the payload that frames carry for a connection.
* `Whole`: what has arrived does not break off inside an escaped byte.
* `Carries`: the frames that a stream carries, of which the first one may be in progress.
* `Takes`: what a call takes from the stream.

## Main results

* `decode_front`: a call of `decode` on what has arrived of a frame.
* `Intake.takes`: a call of `recv_from_tunnel` on what has arrived of the stream.
-/

namespace OsTasks.PortForwarding

/-! ### Payload -/

/-- The payload of a frame. -/
def Frame.payload (f : Frame) : List UInt8 :=
  match f.event with
  | .command _ _ => []
  | .data _ bytes => bytes

/-- The payload of frames for the connection with a tag. -/
def payloadAt (frames : List Frame) (tag : ℕ) : List UInt8 :=
  frames.flatMap fun f => if f.tag = tag then f.payload else []

@[simp] theorem payloadAt_nil (tag : ℕ) : payloadAt [] tag = [] := rfl

theorem payloadAt_cons (f : Frame) (frames : List Frame) (tag : ℕ) :
    payloadAt (f :: frames) tag = (if f.tag = tag then f.payload else []) ++ payloadAt frames tag :=
  rfl

theorem payloadAt_append (frames frames' : List Frame) (tag : ℕ) :
    payloadAt (frames ++ frames') tag = payloadAt frames tag ++ payloadAt frames' tag :=
  List.flatMap_append

/-- The bytes that are taken from a connection are the payload of its frames. -/
theorem payloadAt_sentFrames (events : List PumpEvent) (tag : ℕ) :
    payloadAt (sentFrames events) tag = encodedAt Slot.inc events tag := by
  unfold sentFrames encodedAt
  rw [← List.filterMap_reverse]
  induction events.reverse with
  | nil => rfl
  | cons e events ih =>
    rw [List.flatMap_cons, ← ih]
    cases e with
    | encoded s bytes => rfl
    | sent command =>
      change (if command.tag = tag then [] else []) ++ _ = _
      rw [ite_self]
      rfl
    | _ => rfl

/-! ### One call of `decode` -/

variable {src dst : RoundBuffer} {bytes p more : List UInt8} {wild : ℕ → UInt8}

/-- With no more room than payload, the room is filled. -/
theorem decode_fills (wild : ℕ → UInt8) (hdst : dst.Unwrapped)
    (h : src.contents = escaped p ++ bytes) (hroom : bufFreeLength dst ≤ p.length)
    (hne : escaped (p.drop (bufFreeLength dst)) ++ bytes ≠ []) :
    (decode wild src dst).1 = false ∧
      (decode wild src dst).2.1.contents = escaped (p.drop (bufFreeLength dst)) ++ bytes ∧
      Delivered dst (decode wild src dst).2.2 (p.take (bufFreeLength dst)) := by
  have hlen : (p.take (bufFreeLength dst)).length = bufFreeLength dst :=
    List.length_take_of_le hroom
  have hbytes := h.trans (escaped_append_eq (bufFreeLength dst) bytes)
  obtain ⟨it, as, -, -, -, hloop, -⟩ := decodeLoop_call wild dst hne hbytes (n := 0)
    (by rw [hlen, Nat.zero_add])
  have hdecode : decode wild src dst =
      (false, bufAdvanceReadPtr src (escaped (p.take (bufFreeLength dst))).length,
        dst.put (p.take (bufFreeLength dst))) := by
    rw [decode_of_loop hloop, ← advance_pushAll hlen.le]
  rw [hdecode]
  refine ⟨rfl, ?_, delivered_put hdst hlen.le⟩
  rw [contents_bufAdvanceReadPtr, hbytes, List.drop_left]

/-- What a call of `decode` does to a frame with the payload `p`, where the source and then the
bytes `more` are what is left of the frame and the bytes `rest` behind it: the front of the payload
is delivered, or all of it, and the end of the frame is taken. -/
inductive DecodesFront (wild : ℕ → UInt8) (src dst : RoundBuffer) (p more rest : List UInt8) : Prop
  | waits (front back : List UInt8) (hp : p = front ++ back)
      (hend : (decode wild src dst).1 = false)
      (hsrc : (decode wild src dst).2.1.contents ++ more = escaped back ++ endByte :: rest)
      (hdst : Delivered dst (decode wild src dst).2.2 front)
  | ends (hend : (decode wild src dst).1 = true)
      (hframe : unstuff endByte escByte src.contents =
        some (p, (decode wild src dst).2.1.contents))
      (hsrc : (decode wild src dst).2.1.contents ++ more = rest)
      (hdst : Delivered dst (decode wild src dst).2.2 p)

/-- **A call of `decode` on what has arrived of a frame.** -/
theorem decode_front (wild : ℕ → UInt8) (hdst : dst.Unwrapped) {rest : List UInt8}
    (hne : src.contents ≠ []) (hwhole : breaksOff endByte escByte src.contents = false)
    (h : src.contents ++ more = escaped p ++ endByte :: rest) :
    DecodesFront wild src dst p more rest := by
  rcases stuff_of_not_breaksOff (by decide) h hwhole with
    ⟨ys, zs, rfl, hys, hzs⟩ | ⟨tail, hend, htail⟩
  · rw [← List.append_nil (stuff _ _ ys)] at hys
    rcases Nat.lt_or_ge (bufFreeLength dst) ys.length with hroom | hroom
    · -- the room is too small for what has arrived
      obtain ⟨hfalse, hsrc, hput⟩ := decode_fills wild hdst hys hroom.le (by
        rw [List.append_nil]
        intro hnil
        have hdrop : ys.drop (bufFreeLength dst) = [] := eq_nil_of_escaped (by rw [hnil]; rfl)
        rw [List.drop_eq_nil_iff] at hdrop
        omega)
      refine .waits _ (ys.drop (bufFreeLength dst) ++ zs) ?_ hfalse ?_ hput
      · rw [← List.append_assoc, List.take_append_drop]
      · rw [hsrc, hzs, List.append_nil, ← List.append_assoc, ← stuff_append]
    · have hysne : ys ≠ [] := by
        rintro rfl
        exact hne hys
      rw [List.append_nil] at hys
      obtain ⟨hdecode, -⟩ := decode_payload wild dst hysne hys hroom
      refine .waits ys zs rfl (by rw [hdecode]) ?_ ?_
      · rw [hdecode, hzs, contents_bufAdvanceReadPtr, ← src.length_contents, List.drop_length]
        rfl
      · rw [hdecode]
        exact delivered_put hdst hroom
  · rcases Nat.lt_or_ge p.length (bufFreeLength dst) with hroom | hroom
    · obtain ⟨htrue, hsrc, hput⟩ := decode_whole wild hdst hend hroom
      refine .ends htrue ?_ (hsrc ▸ htail) hput
      rw [hsrc, hend]
      exact unstuff_stuff (by decide) p tail
    · obtain ⟨hfalse, hsrc, hput⟩ := decode_full wild hdst hend hroom
      refine .waits _ _ (List.take_append_drop _ p).symm hfalse ?_ hput
      rw [hsrc, List.append_assoc, List.cons_append, htail]

/-! ### The tunnel's input -/

/-- The unread input of the tunnel. -/
def Controller.tunnelInput (c : Controller) : List UInt8 := inputAt Slot.ref c.slots 0

variable {c c' : Controller} {conns : Conns} {tunnel target s : Slot}

theorem tunnelInput_of_mem (hnd : (c.slots.map Slot.ref).Nodup) (hs : s ∈ c.slots)
    (href : s.ref = 0) : c.tunnelInput = s.conn.inBuf.contents := by
  unfold Controller.tunnelInput inputAt
  rw [← href]
  exact heldAt_of_mem hnd hs

theorem Pumping.tunnelInput (h : Pumping Slot.ref 0 conns c)
    (ht : lookup c.slots conns 0 = some tunnel) :
    tunnel.ref = 0 ∧ c.tunnelInput = tunnel.conn.inBuf.contents := by
  obtain ⟨hmem, hconns⟩ := lookup_eq_some ht
  have href := h.tunnel tunnel hmem hconns
  exact ⟨href, tunnelInput_of_mem h.nodup hmem href⟩

/-- The tunnel's input after a change of it. -/
theorem tunnelInput_modify (hnd : (c.slots.map Slot.ref).Nodup) (hs : s ∈ c.slots)
    (href : s.ref = 0) (f : Connection → Connection) :
    (c.modify s.ref f).tunnelInput = (f s.conn).inBuf.contents := by
  have hmem : modifySlot s.ref f s ∈ (c.modify s.ref f).slots := List.mem_map_of_mem hs
  have hnd' : ((c.modify s.ref f).slots.map Slot.ref).Nodup :=
    (map_ref_modifyConn c.slots s.ref f).symm ▸ hnd
  rw [tunnelInput_of_mem hnd' hmem ((ref_modifySlot ..).trans href), modifySlot_self]

/-- The front of the tunnel's input is taken. -/
theorem tunnelInput_advance (c : Controller) (n : ℕ) :
    (c.modify 0 fun conn => { conn with inBuf := bufAdvanceReadPtr conn.inBuf n }).tunnelInput =
      c.tunnelInput.drop n := by
  let f : Connection → Connection := fun conn =>
    { conn with inBuf := bufAdvanceReadPtr conn.inBuf n }
  have hrel : List.Forall₂ (fun s s' => s' = modifySlot 0 f s) c.slots (c.modify 0 f).slots :=
    forall₂_modify fun _ _ => rfl
  unfold Controller.tunnelInput inputAt
  refine heldAt_rel (P := fun l l' => l' = l.drop n) hrel ?_ (fun _ => List.drop_nil.symm) ?_
  · rintro s s' rfl
    exact ref_modifySlot ..
  · rintro s s' href rfl
    rw [modifySlot_of_eq href]
    exact contents_bufAdvanceReadPtr ..

theorem tunnelInput_of_forall₂ {slots' new : List Slot}
    (h : List.Forall₂ (fun s s' => s'.ref = s.ref ∧ s'.conn.inBuf = s.conn.inBuf) c.slots slots')
    (hslots : c'.slots = slots' ++ new) (hnew : ∀ s ∈ new, s.conn.inBuf.contents = []) :
    c'.tunnelInput = c.tunnelInput := by
  unfold Controller.tunnelInput inputAt
  rw [hslots, heldAt_append hnew]
  refine heldAt_rel (P := fun l l' => l' = l) h (fun _ _ hs => hs.1) (fun _ => rfl) ?_
  rintro s s' - ⟨-, hin⟩
  rw [hin]

/-- A command leaves the tunnel's input as it is. -/
theorem tunnelInput_onCommand (env : ConnectEnv) (c : Controller) (command : Command) :
    (onCommand env c command).tunnelInput = c.tunnelInput := by
  obtain ⟨opened, heff⟩ := onCommand_effect env c command
  have hsame : List.Forall₂ (fun s s' => s'.ref = s.ref ∧ s'.conn.inBuf = s.conn.inBuf)
      c.slots c.slots := List.forall₂_same.mpr fun _ _ => ⟨rfl, rfl⟩
  rcases heff.slots with
    ⟨s, -, -, hslots, -⟩ | ⟨-, -, ⟨-, hslots, -⟩ | ⟨-, -, s, hslots, hfresh, -⟩⟩
  · refine tunnelInput_of_forall₂ ?_ (hslots.trans (List.append_nil _).symm) (by simp)
    rw [List.forall₂_map_right_iff, List.forall₂_same]
    refine fun t _ => ⟨ref_modifySlot .., ?_⟩
    unfold modifySlot
    split_ifs
    · exact inBuf_commandChange ..
    · rfl
  · exact tunnelInput_of_forall₂ hsame (hslots.trans (List.append_nil _).symm) (by simp)
  · refine tunnelInput_of_forall₂ hsame hslots ?_
    simpa [RoundBuffer.contents_eq_nil_iff] using hfresh.inBuf

/-! ### The frames of a stream -/

/-- The payload of the next frame does not break off inside an escaped byte. -/
def startsWhole : List UInt8 → Bool
  | _ :: id :: bytes => id = 0 || !breaksOff endByte escByte bytes
  | _ => true

/-- What has arrived of the frame in progress, and of the next one, does not break off inside an
escaped byte. -/
def Whole (sendingTo : ℤ) (bytes : List UInt8) : Prop :=
  if sendingTo = -1 then startsWhole bytes = true
  else breaksOff endByte escByte bytes = false ∧
    ∀ r ∈ unstuff endByte escByte bytes, startsWhole r.2 = true

instance (sendingTo : ℤ) (bytes : List UInt8) : Decidable (Whole sendingTo bytes) :=
  inferInstanceAs (Decidable (if sendingTo = -1 then startsWhole bytes = true else _ ∧
    ∀ r ∈ unstuff endByte escByte bytes, startsWhole r.2 = true))

/-- The bytes are those of the frames. While a data frame is in progress, it is the first one, and
its payload is what is left of it. -/
inductive Carries (sendingTo : ℤ) (bytes : List UInt8) (frames : List Frame) : Prop
  | idle (hsend : sendingTo = -1) (h : bytes = frameBytes frames)
  | busy (id : UInt8) (payload : List UInt8) (tag : ℕ) (rest : List Frame)
      (hsend : sendingTo = id.toNat) (hframes : frames = ⟨.data id payload, tag⟩ :: rest)
      (h : bytes = escaped payload ++ endByte :: frameBytes rest)

theorem frameBytes_cons (f : Frame) (frames : List Frame) :
    frameBytes (f :: frames) = f.event.frame ++ frameBytes frames := rfl

/-- Frames behind the others. -/
theorem Carries.append {sendingTo : ℤ} {frames : List Frame} (h : Carries sendingTo bytes frames)
    (later : List Frame) : Carries sendingTo (bytes ++ frameBytes later) (frames ++ later) := by
  rcases h with ⟨hsend, rfl⟩ | ⟨id, payload, tag, rest, hsend, rfl, rfl⟩
  · exact .idle hsend (frameBytes_append frames later).symm
  · refine .busy id payload tag (rest ++ later) hsend rfl ?_
    rw [List.append_assoc, List.cons_append, frameBytes_append]

/-- **The next frame is the oldest one.** -/
theorem frameStart_eq_some {frames : List Frame} {start : FrameStart}
    (hvalid : ∀ f ∈ frames, f.event.Valid) (h : bytes ++ more = frameBytes frames)
    (hstart : frameStart bytes = some start) :
    ∃ f rest, frames = f :: rest ∧ f.packet.start = start := by
  match bytes with
  | [] | [_] | [_, _] | [_, _, _] => cases hstart
  | b₀ :: b₁ :: b₂ :: b₃ :: bytes =>
    match frames with
    | [] => cases h
    | ⟨event, tag⟩ :: rest =>
      refine ⟨_, rest, rfl, ?_⟩
      rw [frameBytes_cons] at h
      cases event with
      | command cmd arg =>
        simp only [TunnelEvent.frame, commandFrame, List.cons_append, List.cons.injEq] at h
        obtain ⟨rfl, rfl, rfl, rfl, -⟩ := h
        simp only [frameStart, ne_eq, not_true_eq_false, if_false, if_true] at hstart
        split_ifs at hstart
        exact Option.some.inj hstart
      | data id payload =>
        have hid : id ≠ 0 := hvalid _ List.mem_cons_self
        simp only [TunnelEvent.frame, dataFrame, List.cons_append, List.cons.injEq] at h
        obtain ⟨rfl, rfl, -⟩ := h
        simp only [frameStart, ne_eq, not_true_eq_false, if_false, if_neg hid] at hstart
        exact Option.some.inj hstart

/-! ### A call of `recv_from_tunnel` -/

/-- What is delivered of a data frame, and what is left of the stream. -/
theorem deliver_front (h : Pumping Slot.ref 0 conns c) (env : PumpEnv) {tunnel' : Slot} (id : UInt8)
    {payload : List UInt8} {rest : List Frame} (ht : lookup c.slots conns 0 = some tunnel)
    (href : tunnel'.ref = tunnel.ref) (hwrap : target.conn.outBuf.Unwrapped)
    (hne : tunnel'.conn.inBuf.contents ≠ [])
    (hwhole : breaksOff endByte escByte tunnel'.conn.inBuf.contents = false)
    (hin : tunnel'.conn.inBuf.contents ++ more = escaped payload ++ endByte :: frameBytes rest) :
    ∃ front, (c.deliver env id.toNat tunnel' target).trace =
        [.delivered id.toNat 0 target front] ++ c.trace ∧
      ((∃ back, payload = front ++ back ∧
          (decode env.wild tunnel'.conn.inBuf target.conn.outBuf).1 = false ∧
          (c.deliver env id.toNat tunnel' target).pump.sendingTo = id.toNat ∧
          (c.deliver env id.toNat tunnel' target).tunnelInput ++ more =
            escaped back ++ endByte :: frameBytes rest) ∨
        payload = front ∧ (decode env.wild tunnel'.conn.inBuf target.conn.outBuf).1 = true ∧
          (c.deliver env id.toNat tunnel' target).pump.sendingTo = -1 ∧
          unstuff endByte escByte tunnel'.conn.inBuf.contents =
            some (payload, (c.deliver env id.toNat tunnel' target).tunnelInput) ∧
          (c.deliver env id.toNat tunnel' target).tunnelInput ++ more = frameBytes rest) := by
  let r := decode env.wild tunnel'.conn.inBuf target.conn.outBuf
  let c' := c.deliver env id.toNat tunnel' target
  have htrace {front : List UInt8} (hput : Delivered target.conn.outBuf r.2.2 front) :
      c'.trace = [.delivered id.toNat 0 target front] ++ c.trace := by
    change PumpEvent.delivered id.toNat 0 target
      (r.2.2.contents.drop target.conn.outBuf.length) :: _ = _
    rw [hput.contents, ← RoundBuffer.length_contents, List.drop_left]
    rfl
  have hsend : c'.pump.sendingTo = if r.1 then -1 else (id.toNat : ℤ) := rfl
  have hinput : c'.tunnelInput = r.2.1.contents := by
    obtain ⟨t, hlookup, htin⟩ := exists_lookup_decodeTo env id.toNat target ht href
    obtain ⟨hmem, hconns⟩ := lookup_eq_some hlookup
    have hzero : t.ref = 0 := by
      rw [← (h.tunnelInput ht).1, ← Option.some_inj, ← hconns, (lookup_eq_some ht).2]
    have hnd : (c'.slots.map Slot.ref).Nodup := by
      change (((decodeTo env id.toNat tunnel' target c).2.slots).map Slot.ref).Nodup
      rw [slots_decodeTo, map_ref_modifyConn, map_ref_modifyConn]
      exact h.nodup
    rw [tunnelInput_of_mem (c := c') hnd hmem hzero, htin]
  change ∃ front, c'.trace = _ ∧
    ((∃ back, _ ∧ _ ∧ c'.pump.sendingTo = _ ∧ c'.tunnelInput ++ _ = _) ∨
      _ ∧ _ ∧ c'.pump.sendingTo = _ ∧ _ = some (_, c'.tunnelInput) ∧ c'.tunnelInput ++ _ = _)
  rw [hsend, hinput]
  rcases decode_front env.wild hwrap hne hwhole hin with
    ⟨front, back, hp, hend, hsrc, hput⟩ | ⟨hend, hframe, hsrc, hput⟩
  · exact ⟨front, htrace hput, .inl ⟨back, hp, hend, if_neg (by simp [r, hend]), hsrc⟩⟩
  · exact ⟨payload, htrace hput, .inr ⟨rfl, hend, if_pos hend, hframe, hsrc⟩⟩

/-- What a call takes from a stream that carries the frames, and what is left of them. -/
structure Takes (c c' : Controller) (t : Taking) (more : List UInt8) (frames frames' : List Frame)
    (events : List PumpEvent) : Prop where
  trace : c'.trace = events ++ c.trace
  carries : Carries c'.pump.sendingTo (c'.tunnelInput ++ more) frames'
  left : frames'.map Frame.packet = t.left (frames.map Frame.packet) (c'.pump.sendingTo = -1)
  payload : deliveredTags events = t.dataTags (frames.map Frame.packet) →
    ∀ tag, payloadAt frames tag = deliveredAt Slot.inc events tag ++ payloadAt frames' tag

theorem payloadAt_deliver {id : ℕ} {front back : List UInt8} {i : UInt8} {τ : ℕ}
    {rest : List Frame} (htag : target.inc = τ) (tag : ℕ) :
    payloadAt (⟨.data i (front ++ back), τ⟩ :: rest) tag =
      deliveredAt Slot.inc [.delivered id 0 target front] tag ++
        payloadAt (⟨.data i back, τ⟩ :: rest) tag := by
  rw [payloadAt_cons, payloadAt_cons, deliveredAt_singleton, PumpEvent.givenTo, htag]
  split_ifs
  · exact List.append_assoc ..
  · rfl

/-- **A new frame is taken.** -/
theorem StartsFrame.takes {env : PumpEnv} {tag : ℕ} {start : Option FrameStart}
    {frames : List Frame} (h : Pumping Slot.ref 0 conns c)
    (hstarts : StartsFrame (onTaggedCommand tag env.connect) env conns c start c')
    (hsend : c.pump.sendingTo = -1) (hwrap : ∀ s ∈ c.slots, s.conn.outBuf.Unwrapped)
    (hwhole : startsWhole c.tunnelInput = true) (hvalid : ∀ f ∈ frames, f.event.Valid)
    (hin : c.tunnelInput ++ more = frameBytes frames) :
    ({ start := start } : Taking).Honest (frames.map Frame.packet) ∧
      ∃ frames' events, Takes c c' { start := start } more frames frames' events := by
  cases hstarts with
  | nothing =>
    exact ⟨fun _ hstart => absurd hstart.symm (Option.some_ne_none _), frames, [], rfl,
      .idle hsend hin, rfl, fun _ _ => rfl⟩
  | @command tunnel cmd arg b bytes ht hbytes =>
    obtain ⟨href, htin⟩ := h.tunnelInput ht
    rw [htin, hbytes] at hin
    obtain ⟨⟨event, τ⟩, rest, rfl, hstart⟩ := frameStart_eq_some hvalid hin rfl
    refine ⟨fun start hsome => Option.some.inj hsome ▸ congrArg some hstart, rest, ?_⟩
    cases event with
    | data id payload => cases hstart
    | command cmd' arg' =>
      have hrest : bytes ++ more = frameBytes rest := by
        simp only [frameBytes_cons, TunnelEvent.frame, commandFrame, List.cons_append,
          List.cons.injEq, List.nil_append] at hin
        exact hin.2.2.2.2.2
      let c₁ := (c.modify tunnel.ref fun conn =>
        { conn with inBuf := bufAdvanceReadPtr tunnel.conn.inBuf 3 }).note (.received cmd arg)
      have hin₁ : c₁.tunnelInput = (bufAdvanceReadPtr tunnel.conn.inBuf 3).contents :=
        tunnelInput_modify h.nodup (lookup_eq_some ht).1 href fun conn =>
          { conn with inBuf := bufAdvanceReadPtr tunnel.conn.inBuf 3 }
      obtain ⟨opened, heff⟩ := onCommand_effect env.connect c₁ ⟨cmd, arg, tag⟩
      refine ⟨[.handled ⟨cmd, arg, tag⟩ (commandTarget c₁ ⟨cmd, arg, tag⟩) c₁.freeIds opened,
        .received cmd arg], heff.trace, .idle (heff.sendingTo.trans hsend) ?_, rfl,
        fun _ τ' => ?_⟩
      · have hinput : (c.handleFrame (onTaggedCommand tag env.connect) tunnel cmd arg).tunnelInput =
            bytes := by
          unfold Controller.handleFrame
          rw [href, tunnelInput_advance]
          unfold onTaggedCommand
          rw [tunnelInput_onCommand, ← href, hin₁, contents_bufAdvanceReadPtr, hbytes]
          rfl
        rw [hinput, hrest]
      · rw [payloadAt_cons]
        change (if τ = τ' then [] else []) ++ _ = _
        rw [ite_self]
        rfl
  | @data tunnel target id b b' bytes ht hid hbytes htarget =>
    obtain ⟨href, htin⟩ := h.tunnelInput ht
    rw [htin, hbytes] at hin hwhole
    have hdata : frameStart (endByte :: id :: b :: b' :: bytes) = some (.data id) := by
      simp [frameStart, hid]
    obtain ⟨⟨event, τ⟩, rest, rfl, hstart⟩ := frameStart_eq_some hvalid hin hdata
    refine ⟨fun start hsome => Option.some.inj hsome ▸ congrArg some hstart, ?_⟩
    cases event with
    | command cmd arg => cases hstart
    | data id' payload =>
      obtain rfl := FrameStart.data.inj hstart
      have hafter : tunnel.afterStart.conn.inBuf.contents = b :: b' :: bytes := by
        change (bufAdvanceReadPtr tunnel.conn.inBuf 2).contents = _
        rw [contents_bufAdvanceReadPtr, hbytes]
        rfl
      have hpayload : tunnel.afterStart.conn.inBuf.contents ++ more =
          escaped payload ++ endByte :: frameBytes rest := by
        rw [hafter]
        simpa [frameBytes_cons, TunnelEvent.frame, dataFrame] using hin
      have hsame : tunnel.afterStart.ref = tunnel.ref := rfl
      obtain ⟨front, htrace, hleft⟩ := deliver_front h env id' ht hsame
        (hwrap target (lookup_eq_some htarget).1) (hafter ▸ List.cons_ne_nil _ _) (by
          simpa [hafter, startsWhole, hid] using hwhole) hpayload
      rcases hleft with ⟨back, rfl, -, hsend', hin'⟩ | ⟨rfl, -, hsend', -, hin'⟩
      · refine ⟨⟨.data id' back, τ⟩ :: rest, _, htrace, .busy id' back τ rest hsend' rfl hin', ?_,
          fun htags => payloadAt_deliver ?_⟩
        · have hbusy : ¬ (id'.toNat : ℤ) = -1 := by omega
          rw [hsend', decide_eq_false hbusy]
          rfl
        · exact (List.cons.inj htags).1
      · refine ⟨rest, _, htrace, .idle hsend' hin', ?_, fun htags τ' => ?_⟩
        · rw [hsend']
          rfl
        · rw [payloadAt_cons, deliveredAt_singleton, PumpEvent.givenTo, (List.cons.inj htags).1]
          rfl

/-- **A call of `recv_from_tunnel` on what has arrived of the stream.** -/
theorem Intake.takes {env : PumpEnv} {tag : ℕ} {t : Taking} {frames : List Frame}
    (h : Pumping Slot.ref 0 conns c)
    (hintake : Intake (onTaggedCommand tag env.connect) env conns c t c')
    (hwrap : ∀ s ∈ c'.slots, s.conn.outBuf.Unwrapped)
    (hwhole : Whole c.pump.sendingTo c.tunnelInput) (hvalid : ∀ f ∈ frames, f.event.Valid)
    (hcarries : Carries c.pump.sendingTo (c.tunnelInput ++ more) frames) :
    t.Honest (frames.map Frame.packet) ∧
      ∃ frames' events, Takes c c' t more frames frames' events := by
  obtain ⟨hconveys, h'⟩ := conveys_intake isKey_ref h hintake
  have hstraight := (hconveys ⟨h'.nodup, hwrap⟩).1
  cases hintake with
  | nothing =>
    exact ⟨fun _ hstart => absurd hstart.symm (Option.some_ne_none _), frames, [], rfl, hcarries,
      rfl, fun _ _ => rfl⟩
  | starts hsend hstarts =>
    rcases hcarries with ⟨-, hin⟩ | ⟨id, _, _, _, hbusy, -, -⟩
    · exact hstarts.takes h hsend hstraight.output ((if_pos hsend).mp hwhole) hvalid hin
    · omega
  | @goesOn tunnel target id ht hne hid hsend htarget hend =>
    rcases hcarries with ⟨hidle, -⟩ | ⟨i, payload, τ, rest, hbusy, rfl, hin⟩
    · omega
    obtain rfl : id = i.toNat := by omega
    obtain ⟨-, htin⟩ := h.tunnelInput ht
    have hpart := ((if_neg (by omega)).mp hwhole).1
    rw [htin] at hin hpart
    obtain ⟨front, htrace, hleft⟩ := deliver_front h env i ht rfl
      (hstraight.output target (lookup_eq_some htarget).1)
      (fun hnil => hne ((RoundBuffer.contents_eq_nil_iff _).mp hnil)) hpart hin
    obtain ⟨back, rfl, -, hsend', hin'⟩ := hleft.resolve_right fun hended => by
      rw [hend] at hended
      exact Bool.false_ne_true hended.2.1
    exact ⟨fun _ hstart => absurd hstart.symm (Option.some_ne_none _), _, _, htrace,
      .busy i back τ rest hsend' rfl hin', rfl,
      fun htags => payloadAt_deliver (List.cons.inj htags).1⟩
  | @ends tunnel target id start _ ht hne hid hsend htarget hend hstarts =>
    rcases hcarries with ⟨hidle, -⟩ | ⟨i, payload, τ, rest, hbusy, rfl, hin⟩
    · omega
    obtain rfl : id = i.toNat := by omega
    obtain ⟨-, htin⟩ := h.tunnelInput ht
    obtain ⟨hpart, hnext⟩ := (if_neg (by omega)).mp hwhole
    rw [htin] at hin hpart hnext
    obtain ⟨front, htrace, hleft⟩ := deliver_front h env i ht rfl
      (hstraight.output target (lookup_eq_some htarget).1)
      (fun hnil => hne ((RoundBuffer.contents_eq_nil_iff _).mp hnil)) hpart hin
    obtain ⟨rfl, -, hsend', hframe, hin'⟩ := hleft.resolve_left fun hwaits => by
      obtain ⟨_, _, hfalse, _⟩ := hwaits
      rw [hend] at hfalse
      exact Bool.false_ne_true hfalse.symm
    have h₁ := h.deliver isKey_ref env ht rfl (Nat.le_refl _) rfl (by omega) htarget
    have hstraight₁ := ((conveys_startsFrame isKey_ref h₁ hstarts).1 ⟨h'.nodup, hwrap⟩).1
    obtain ⟨hhonest, frames', events, htakes⟩ := hstarts.takes h₁ hsend' hstraight₁.output
      (hnext _ hframe) (fun f hf => hvalid f (List.mem_cons_of_mem _ hf)) hin'
    refine ⟨hhonest, frames', events ++ [.delivered i.toNat 0 target payload], ?_, htakes.carries,
      htakes.left, fun htags tag => ?_⟩
    · rw [htakes.trace, htrace, List.append_assoc]
    · rw [deliveredTags_append] at htags
      obtain ⟨htag, htags⟩ := List.cons.inj htags
      rw [payloadAt_cons, htakes.payload htags tag, deliveredAt_append, deliveredAt_singleton,
        PumpEvent.givenTo, htag, List.append_assoc]
      rfl

end OsTasks.PortForwarding
