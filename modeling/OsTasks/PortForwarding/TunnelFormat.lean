import OsTasks.PortForwarding.Receive

/-!
# The tunnel format

What is appended to the tunnel at one end comes out at the other end: the same commands and the
same payload, in the same order, however the payload was cut into frames.

The sender is any sequence of calls of `encode` and `encode_command` on one new buffer, the
receiver is `recv_from_tunnel`, called until it makes no more progress.

## Main definitions

* `TunnelEvent`, `TunnelEvent.frame`: what a frame carries, and its bytes.
* `TunnelCall`, `sendAll`: the sender.
* `recvAll`, `eventsOf`: the receiver, and the events it has seen.
* `Receiver`: the invariant of the receiver.

## Main results

* `sendAll_spec`: the buffer of the sender holds the frames of its events.
* `Receiver.recv`: one call takes one frame.
* `tunnel_round_trip`: the receiver sees the events of the sender.
-/

namespace OsTasks.PortForwarding

/-! ### Streams of frames -/

/-- The bytes of a sequence of events. -/
def stream (events : List TunnelEvent) : List UInt8 := events.flatMap TunnelEvent.frame

theorem stream_append (l₁ l₂ : List TunnelEvent) : stream (l₁ ++ l₂) = stream l₁ ++ stream l₂ :=
  List.flatMap_append

theorem length_frame (e : TunnelEvent) : 3 ≤ e.frame.length := by
  cases e with
  | command => simp [TunnelEvent.frame, commandFrame]
  | data => simp [TunnelEvent.frame, length_dataFrame]

/-! ### The sender -/

/-- A call that appends to the tunnel's output: `encode_command`, or `encode` of the bytes in some
buffer for some connection. -/
inductive TunnelCall
  | command (cmd arg : UInt8)
  | data (src : RoundBuffer) (id : UInt8) (hid : id ≠ 0)

/-- The buffer after a call, and what the appended frame carries, if there is one: `encode` reports
success also when there was nothing to encode. -/
def TunnelCall.run (dst : RoundBuffer) : TunnelCall → RoundBuffer × Option TunnelEvent
  | .command cmd arg =>
    let r := encodeCommand dst cmd arg
    (r.2, if r.1 then some (.command cmd arg) else none)
  | .data src id _ =>
    let r := encode src dst id
    (r.2.2, if r.1 && !bufEmpty src then
      some (.data id (src.contents.take (src.length - r.2.1.length))) else none)

/-- The buffer after a sequence of calls, and what was appended. -/
def sendAll : List TunnelCall → RoundBuffer → RoundBuffer × List TunnelEvent
  | [], dst => (dst, [])
  | call :: calls, dst =>
    let r := call.run dst
    let rest := sendAll calls r.1
    (rest.1, r.2.toList ++ rest.2)

/-- **A call appends the frame of its event**, in a buffer that starts at the beginning of its
array. -/
theorem TunnelCall.run_spec (call : TunnelCall) {dst : RoundBuffer} (hdst : dst.offset = 0) :
    (call.run dst).1.offset = 0 ∧
      (call.run dst).1.contents = dst.contents ++ stream (call.run dst).2.toList ∧
      ∀ e ∈ (call.run dst).2, e.Valid := by
  have hunwrapped : dst.Unwrapped := by
    rw [RoundBuffer.Unwrapped, hdst, Nat.zero_add]
    exact dst.length_le
  cases call with
  | command cmd arg =>
    rcases encodeCommand_spec dst cmd arg with h | ⟨hlen, h⟩ <;> simp only [run, h]
    · exact ⟨hdst, (List.append_nil _).symm, by simp⟩
    · refine ⟨hdst, ?_, by simp [TunnelEvent.Valid]⟩
      rw [contents_put hunwrapped hlen]
      simp [stream, TunnelEvent.frame]
  | data src id hid =>
    rcases encode_spec src dst id with h | ⟨hne, hlen, h⟩ <;> simp only [run, h]
    · rw [Bool.and_not_self, if_neg Bool.false_ne_true]
      exact ⟨hdst, (List.append_nil _).symm, by simp⟩
    · have hsome : (true && !bufEmpty src) = true := by
        rw [Bool.true_and, Bool.not_eq_true', Bool.eq_false_iff]
        exact fun hempty => hne ((bufEmpty_iff src).mp hempty)
      have htaken : src.contents.take (src.length -
          (bufAdvanceReadPtr src (takenBytes src dst).length).length) = takenBytes src dst := by
        rw [length_bufAdvanceReadPtr, Nat.sub_sub_self (length_takenBytes_le src dst)]
        exact (takenBytes_eq src dst).symm
      rw [if_pos hsome, htaken]
      refine ⟨hdst, ?_, by simpa [TunnelEvent.Valid] using hid⟩
      rw [contents_put hunwrapped hlen]
      simp [stream, TunnelEvent.frame]

/-- **The buffer of the sender holds the frames of its events**, behind what was there. -/
theorem sendAll_spec (calls : List TunnelCall) {dst : RoundBuffer} (hdst : dst.offset = 0) :
    (sendAll calls dst).1.contents = dst.contents ++ stream (sendAll calls dst).2 ∧
      ∀ e ∈ (sendAll calls dst).2, e.Valid := by
  induction calls generalizing dst with
  | nil => exact ⟨(List.append_nil _).symm, fun e he => absurd he List.not_mem_nil⟩
  | cons call calls ih =>
    obtain ⟨hoffset, hcontents, hvalid⟩ := call.run_spec hdst
    obtain ⟨hrest, hvalid'⟩ := ih hoffset
    refine ⟨?_, fun e he => ?_⟩
    · rw [sendAll, hrest, hcontents, List.append_assoc, stream, stream, ← List.flatMap_append]
      rfl
    · exact (List.mem_append.mp he).elim (fun he => hvalid e (Option.mem_toList.mp he)) (hvalid' e)

/-! ### Calls of the receiver -/

/-- A handler of commands that writes down what it gets. -/
def recordCommand (c : Controller) (command : Command) : Controller :=
  c.note (.handled command none [] false)

/-- The number of bytes of the tunnel that have not been taken. -/
def unread (conns : Conns) (c : Controller) : ℕ :=
  ((lookup c.slots conns 0).map fun t => t.conn.inBuf.length).getD 0

/-- `recv_from_tunnel`, called until it takes no byte, at most as often as the fuel says. -/
def recvAll (env : PumpEnv) (conns : Conns) : ℕ → Controller → Except Fault Controller
  | 0, c => .ok c
  | n + 1, c =>
    match recvFromTunnel recordCommand env conns c with
    | .error fault => .error fault
    | .ok c' => if unread conns c' = unread conns c then .ok c' else recvAll env conns n c'

/-- What the receiver has handed on, the newest event first. -/
def eventsOf (trace : List PumpEvent) : List TunnelEvent :=
  trace.filterMap fun
    | .handled command _ _ _ => some (.command command.cmd command.arg)
    | .delivered id _ _ bytes => some (.data (UInt8.ofNat id) bytes)
    | _ => none

/-- Taking bytes from the input of a connection does nothing to its output. -/
@[simp] theorem outBuf_modifySlot_inBuf (ref : ℕ) (f : Connection → RoundBuffer) (s : Slot) :
    (modifySlot ref (fun conn => { conn with inBuf := f conn }) s).conn.outBuf = s.conn.outBuf := by
  unfold modifySlot
  split <;> rfl

/-! ### Frames that are there as a whole -/

section OneFrame

variable {handler : Controller → Command → Controller} {env : PumpEnv} {conns : Conns}
  {c : Controller} {tunnel s : Slot}

variable (env c) in
/-- A payload whose end is there is delivered as a whole, if there is room for more. -/
theorem decodeTo_of_unstuff (hs : s.conn.outBuf.Unwrapped) {xs rest : List UInt8}
    (hframe : unstuff endByte escByte tunnel.conn.inBuf.contents = some (xs, rest))
    (hroom : xs.length < bufFreeLength s.conn.outBuf) (id : ℕ) :
    ∃ buf, buf.contents = rest ∧ decodeTo env id tunnel s c = (true,
      ((c.modify tunnel.ref fun conn => { conn with inBuf := buf }).modify s.ref fun conn =>
        { conn with outBuf := s.conn.outBuf.put xs }).note (.delivered id 0 s xs)) := by
  refine ⟨bufAdvanceReadPtr tunnel.conn.inBuf (tunnel.conn.inBuf.length - rest.length), ?_, ?_⟩
  · rw [contents_bufAdvanceReadPtr, ← RoundBuffer.length_contents]
    exact drop_of_unstuff hframe
  · unfold decodeTo
    rw [decode_spec env.wild hframe hroom]
    dsimp only
    rw [contents_put hs hroom.le, List.drop_left' (RoundBuffer.length_contents _)]

variable (handler env) in
/-- A data frame that is there as a whole is delivered as a whole. -/
theorem nextFrame_data_of_unstuff (ht : lookup c.slots conns 0 = some tunnel) {id b b' : UInt8}
    {xs rest frame : List UInt8}
    (h : tunnel.conn.inBuf.contents = endByte :: id :: b :: b' :: frame) (hid : id ≠ 0)
    (hs : lookup c.slots conns id.toNat = some s) (hunwrapped : s.conn.outBuf.Unwrapped)
    (hframe : unstuff endByte escByte (b :: b' :: frame) = some (xs, rest))
    (hroom : xs.length < bufFreeLength s.conn.outBuf) :
    ∃ buf, buf.contents = rest ∧ nextFrame handler env conns c =
      .ok (((c.modify tunnel.ref fun conn => { conn with inBuf := buf }).modify s.ref fun conn =>
        { conn with outBuf := s.conn.outBuf.put xs }).note (.delivered id.toNat 0 s xs)) := by
  have hbehind : unstuff endByte escByte tunnel.afterStart.conn.inBuf.contents =
    some (xs, rest) := by
    rw [Slot.afterStart, contents_bufAdvanceReadPtr, h]
    exact hframe
  obtain ⟨buf, hbuf, hdecode⟩ := decodeTo_of_unstuff env c hunwrapped hbehind hroom id.toNat
  refine ⟨buf, hbuf, ?_⟩
  rw [nextFrame_eq ht h, if_neg (not_not_intro rfl), if_neg hid, hs]
  dsimp only
  rw [hdecode]
  rfl

end OneFrame

/-! ### The receiver -/

/-- The receiver when it has seen the events `done` and the events `todo` are still in the tunnel:
every connection that gets payload is there, by itself, and has room for it. -/
structure Receiver (conns : Conns) (used : UInt8 → Prop) (before : List TunnelEvent)
    (c : Controller) (done todo : List TunnelEvent) : Prop where
  idle : c.pump.sendingTo = -1
  trace : eventsOf c.trace = done.reverse ++ before
  tunnel : ∃ t, lookup c.slots conns 0 = some t ∧ t.conn.inBuf.contents = stream todo
  target : ∀ id, used id → ∃ s, lookup c.slots conns id.toNat = some s ∧ s.conn.outBuf.offset = 0 ∧
    s.conn.outBuf.contents = payload id done ∧
    (payload id (done ++ todo)).length < s.conn.outBuf.capacity
  separate : ∀ id, used id → conns id.toNat ≠ conns 0
  distinct : ∀ id id', used id → used id' → conns id.toNat = conns id'.toNat → id = id'
  valid : ∀ e ∈ todo, e.Valid ∧ ∀ id bytes, e = .data id bytes → used id

section Receiving

variable {conns : Conns} {used : UInt8 → Prop} {before done todo : List TunnelEvent}
  {c : Controller} {e : TunnelEvent}

theorem Receiver.unread (h : Receiver conns used before c done todo) :
    unread conns c = (stream todo).length := by
  obtain ⟨t, ht, hcontents⟩ := h.tunnel
  rw [PortForwarding.unread, ht, ← hcontents, RoundBuffer.length_contents]
  rfl

/-- The next call goes on to the next frame, if a byte is there. -/
theorem Receiver.recv_eq (h : Receiver conns used before c done todo) (hne : stream todo ≠ [])
    (env : PumpEnv) :
    recvFromTunnel recordCommand env conns c = nextFrame recordCommand env conns c := by
  obtain ⟨t, ht, hcontents⟩ := h.tunnel
  have hempty : ¬ bufEmpty t.conn.inBuf = true := by
    rw [bufEmpty_iff, ← RoundBuffer.contents_eq_nil_iff, hcontents]
    exact hne
  simp only [recvFromTunnel, ht, h.idle]
  rw [if_neg hempty, if_neg (not_not_intro rfl)]

/-- Nothing is taken while three bytes or less are there. -/
theorem Receiver.stop (h : Receiver conns used before c done todo) (hfew : (stream todo).length ≤ 3)
    (env : PumpEnv) : recvFromTunnel recordCommand env conns c = .ok c := by
  obtain ⟨t, ht, hcontents⟩ := h.tunnel
  have hlen : t.conn.inBuf.length ≤ 3 := by
    rwa [← RoundBuffer.length_contents, hcontents]
  simp only [recvFromTunnel, ht, h.idle]
  rw [if_neg (not_not_intro rfl), nextFrame_of_few ht hlen, ite_self]

/-- **A command frame is handed to the handler.** -/
theorem Receiver.recv_command {cmd arg : UInt8}
    (h : Receiver conns used before c done (.command cmd arg :: todo)) (env : PumpEnv) :
    ∃ c', recvFromTunnel recordCommand env conns c = .ok c' ∧
      Receiver conns used before c' (done ++ [.command cmd arg]) todo := by
  obtain ⟨t, ht, hcontents⟩ := h.tunnel
  replace hcontents : t.conn.inBuf.contents =
      endByte :: 0 :: cmd :: arg :: (endByte :: stream todo) := hcontents
  rw [h.recv_eq (List.cons_ne_nil _ _) env, nextFrame_eq ht hcontents, if_neg (not_not_intro rfl),
    if_pos rfl, if_neg (List.length_pos_of_mem List.mem_cons_self).ne']
  have hlookup {id : ℕ} {s : Slot} (hs : lookup c.slots conns id = some s) :=
    (lookup_modifyConn (modifyConn c.slots t.ref fun conn =>
      { conn with inBuf := bufAdvanceReadPtr t.conn.inBuf 3 }) conns t.ref (fun conn =>
      { conn with inBuf := bufAdvanceReadPtr conn.inBuf 2 }) id).trans
        (congrArg _ ((lookup_modifyConn _ _ _ _ _).trans (congrArg _ hs)))
  refine ⟨_, rfl, h.idle, ?_, ⟨_, hlookup ht, ?_⟩, fun id hid => ?_, h.separate, h.distinct,
    fun e he => h.valid e (List.mem_cons_of_mem _ he)⟩
  · change TunnelEvent.command cmd arg :: eventsOf c.trace = _
    rw [h.trace, List.reverse_append]
    rfl
  · rw [modifySlot_of_eq (ref_modifySlot _ _ t), modifySlot_self]
    rw [contents_bufAdvanceReadPtr, contents_bufAdvanceReadPtr, hcontents]
    rfl
  · obtain ⟨s, hs, hoffset, hpayload, hroom⟩ := h.target id hid
    refine ⟨_, hlookup hs, ?_⟩
    rw [outBuf_modifySlot_inBuf, outBuf_modifySlot_inBuf, payload_append, hpayload,
      List.append_assoc]
    exact ⟨hoffset, (List.append_nil _).symm, hroom⟩

/-- **A data frame is delivered as a whole**, unless it is an empty one at the very end. -/
theorem Receiver.recv_data {id : UInt8} {bytes : List UInt8}
    (h : Receiver conns used before c done (.data id bytes :: todo))
    (hmore : 3 < (stream (.data id bytes :: todo)).length) (env : PumpEnv) :
    ∃ c', recvFromTunnel recordCommand env conns c = .ok c' ∧
      Receiver conns used before c' (done ++ [.data id bytes]) todo := by
  obtain ⟨t, ht, hcontents⟩ := h.tunnel
  obtain ⟨hvalid, hused⟩ := h.valid _ List.mem_cons_self
  obtain ⟨s, hs, hoffset, hpayload, hroom⟩ := h.target id (hused id bytes rfl)
  have hsep : s.ref ≠ t.ref := fun heq => h.separate id (hused id bytes rfl)
    ((lookup_eq_some hs).2.trans (heq ▸ (lookup_eq_some ht).2.symm))
  replace hcontents : t.conn.inBuf.contents =
      endByte :: id :: (escaped bytes ++ endByte :: stream todo) := by
    rw [hcontents, stream, List.flatMap_cons, TunnelEvent.frame, dataFrame, List.cons_append,
      List.cons_append, List.append_assoc]
    rfl
  obtain ⟨b, b', rest, hlong⟩ : ∃ b b' rest, escaped bytes ++ endByte :: stream todo =
      b :: b' :: rest := by
    rw [← h.unread, PortForwarding.unread, ht] at hmore
    have hlen := congrArg List.length hcontents
    rw [RoundBuffer.length_contents] at hlen
    change 3 < t.conn.inBuf.length at hmore
    generalize escaped bytes ++ endByte :: stream todo = bs at hlen
    simp only [List.length_cons] at hlen
    obtain ⟨b, bs, rfl⟩ := List.exists_cons_of_length_pos (by omega : 0 < bs.length)
    rw [List.length_cons] at hlen
    obtain ⟨b', rest, rfl⟩ := List.exists_cons_of_length_pos (by omega : 0 < bs.length)
    exact ⟨b, b', rest, rfl⟩
  have hroom' : bytes.length < bufFreeLength s.conn.outBuf := by
    have hlen := congrArg List.length hpayload
    rw [RoundBuffer.length_contents] at hlen
    rw [payload_append, payload_cons_data, if_pos rfl] at hroom
    simp only [List.length_append] at hroom
    unfold bufFreeLength
    omega
  have hunwrapped : s.conn.outBuf.Unwrapped := by
    rw [RoundBuffer.Unwrapped, hoffset, Nat.zero_add]
    exact s.conn.outBuf.length_le
  have hframe : unstuff endByte escByte (b :: b' :: rest) = some (bytes, stream todo) := by
    rw [← hlong]
    exact unstuff_stuff (by decide) bytes (stream todo)
  obtain ⟨buf, hbuf, hnext⟩ := nextFrame_data_of_unstuff recordCommand env ht
    (hcontents.trans (by rw [hlong])) hvalid hs hunwrapped hframe hroom'
  rw [h.recv_eq (List.cons_ne_nil _ _) env, hnext]
  have hlookup {id : ℕ} {u : Slot} (hu : lookup c.slots conns id = some u) :=
    (lookup_modifyConn (modifyConn c.slots t.ref fun conn => { conn with inBuf := buf }) conns s.ref
      (fun conn => { conn with outBuf := s.conn.outBuf.put bytes }) id).trans
        (congrArg _ ((lookup_modifyConn _ _ _ _ _).trans (congrArg _ hu)))
  refine ⟨_, rfl, h.idle, ?_, ⟨_, hlookup ht, ?_⟩, fun i hi => ?_, h.separate, h.distinct,
    fun e he => h.valid e (List.mem_cons_of_mem _ he)⟩
  · change TunnelEvent.data (UInt8.ofNat id.toNat) bytes :: eventsOf c.trace = _
    rw [h.trace, List.reverse_append, UInt8.ofNat_toNat]
    rfl
  · rw [modifySlot_of_ne (by rw [ref_modifySlot]; exact hsep.symm), modifySlot_self]
    exact hbuf
  · obtain ⟨u, hu, huoffset, hupayload, huroom⟩ := h.target i hi
    refine ⟨_, hlookup hu, ?_⟩
    rw [List.append_assoc, payload_append, ← hupayload]
    by_cases heq : i = id
    · obtain rfl := heq
      obtain rfl : s = u := Option.some.inj (hs.symm.trans hu)
      rw [modifySlot_of_eq (ref_modifySlot _ _ s), payload_cons_data, if_pos rfl]
      refine ⟨hoffset, ?_, hroom⟩
      exact (contents_put hunwrapped hroom'.le).trans (by simp [payload])
    · have hne : u.ref ≠ s.ref := fun href => heq (h.distinct i id hi (hused id bytes rfl)
        ((lookup_eq_some hu).2.trans (href ▸ (lookup_eq_some hs).2.symm)))
      rw [modifySlot_of_ne (by rw [ref_modifySlot]; exact hne), outBuf_modifySlot_inBuf,
        payload_cons_data, if_neg (Ne.symm heq)]
      exact ⟨huoffset, (List.append_nil _).symm, huroom⟩

/-- **The calls of the receiver take one frame after the other**, in order, up to three bytes. -/
theorem Receiver.recvAll_run (h : Receiver conns used before c done todo) (env : PumpEnv) {n : ℕ}
    (hn : (stream todo).length ≤ n) :
    ∃ c' seen tail, todo = seen ++ tail ∧ recvAll env conns n c = .ok c' ∧
      (stream tail).length ≤ 3 ∧ Receiver conns used before c' (done ++ seen) tail := by
  induction n generalizing c done todo with
  | zero =>
    exact ⟨c, [], todo, rfl, rfl, hn.trans (Nat.zero_le 3), (List.append_nil done).symm ▸ h⟩
  | succ n ih =>
    by_cases hfew : (stream todo).length ≤ 3
    · refine ⟨c, [], todo, rfl, ?_, hfew, (List.append_nil done).symm ▸ h⟩
      rw [recvAll, h.stop hfew env]
      exact if_pos rfl
    · obtain ⟨e, todo', rfl⟩ : ∃ e todo', todo = e :: todo' := by
        refine List.exists_cons_of_ne_nil ?_
        rintro rfl
        exact hfew (Nat.zero_le 3)
      obtain ⟨c₁, hrecv, h₁⟩ : ∃ c', recvFromTunnel recordCommand env conns c = .ok c' ∧
          Receiver conns used before c' (done ++ [e]) todo' := by
        cases e with
        | command cmd arg => exact h.recv_command env
        | data id bytes => exact h.recv_data (Nat.lt_of_not_le hfew) env
      have hlen : (stream (e :: todo')).length = e.frame.length + (stream todo').length :=
        List.length_append
      have hframe := length_frame e
      obtain ⟨c', seen, tail, rfl, hrun, hshort, h'⟩ := ih h₁ (by omega)
      refine ⟨c', e :: seen, tail, rfl, ?_, hshort, ?_⟩
      · rw [recvAll, hrecv]
        dsimp only
        rw [if_neg (by rw [h₁.unread, h.unread]; omega), hrun]
      · rwa [List.append_assoc] at h'

end Receiving

/-! ### The round trip -/

theorem eq_nil_of_escaped {bs : List UInt8} (h : (escaped bs).length = 0) : bs = [] := by
  cases bs with
  | nil => rfl
  | cons b bs =>
    unfold escaped stuff at h
    split at h <;> simp at h

/-- Only a frame with an empty payload is not longer than three bytes. -/
theorem few_iff {events : List TunnelEvent} (h : (stream events).length ≤ 3) :
    events = [] ∨ ∃ id, events = [.data id []] := by
  match events with
  | [] => exact .inl rfl
  | e :: e' :: rest =>
    have hlen : (stream (e :: e' :: rest)).length =
        e.frame.length + (e'.frame.length + (stream rest).length) :=
      List.length_append.trans (congrArg _ List.length_append)
    have := length_frame e
    have := length_frame e'
    omega
  | [.command cmd arg] => simp [stream, TunnelEvent.frame, commandFrame] at h
  | [.data id bytes] =>
    have hlen : (stream [.data id bytes]).length = (escaped bytes).length + 3 + 0 :=
      List.length_append.trans (congrArg (· + 0) (length_dataFrame id bytes))
    have hnil : bytes = [] := eq_nil_of_escaped (by omega)
    exact .inr ⟨id, by rw [hnil]⟩

/-- A receiver in front of the bytes `bytes`, which carry `events`: it is not in the middle of a
frame, and every id that gets payload is mapped to the connection with that id, whose `out_buf` is
new and larger than the payload. -/
structure ReadyReceiver (conns : Conns) (c : Controller) (bytes : List UInt8)
    (events : List TunnelEvent) : Prop where
  idle : c.pump.sendingTo = -1
  tunnel : ∃ t, lookup c.slots conns 0 = some t ∧ t.conn.id = 0 ∧ t.conn.inBuf.contents = bytes
  target : ∀ id payloadBytes, .data id payloadBytes ∈ events →
    ∃ s mem capacity, lookup c.slots conns id.toNat = some s ∧ s.conn.id = id.toNat ∧
      s.conn.outBuf = bufCreate mem capacity ∧ (payload id events).length < capacity

theorem ReadyReceiver.receiver {conns : Conns} {c : Controller} {bytes : List UInt8}
    {events : List TunnelEvent} (h : ReadyReceiver conns c bytes events)
    (hbytes : bytes = stream events) (hvalid : ∀ e ∈ events, e.Valid) :
    Receiver conns (fun id => ∃ bs, .data id bs ∈ events) (eventsOf c.trace) c [] events := by
  obtain ⟨t, ht, htid, hcontents⟩ := h.tunnel
  refine ⟨h.idle, rfl, ⟨t, ht, hcontents.trans hbytes⟩, fun id ⟨bs, hid⟩ =>
    ?_, fun id ⟨bs, hid⟩ => ?_,
    fun id id' ⟨bs, hid⟩ ⟨bs', hid'⟩ => ?_, fun e he => ⟨hvalid e he, ?_⟩⟩
  · obtain ⟨s, mem, capacity, hs, -, hbuf, hroom⟩ := h.target id bs hid
    exact ⟨s, hs, by rw [hbuf]; rfl, by rw [hbuf]; rfl, by rw [hbuf]; exact hroom⟩
  · obtain ⟨s, -, -, hs, hsid, -⟩ := h.target id bs hid
    intro heq
    have hst : some s = some t := hs.symm.trans (by rw [lookup, heq]; exact ht)
    rw [Option.some.inj hst, htid] at hsid
    exact hvalid _ hid (UInt8.toNat_inj.mp (Int.ofNat.inj hsid).symm)
  · obtain ⟨s, -, -, hs, hsid, -⟩ := h.target id bs hid
    obtain ⟨s', -, -, hs', hsid', -⟩ := h.target id' bs' hid'
    intro heq
    have hss : some s = some s' := hs.symm.trans (by rw [lookup, heq]; exact hs')
    rw [Option.some.inj hss, hsid'] at hsid
    exact UInt8.toNat_inj.mp (Int.ofNat.inj hsid).symm
  · rintro id bs rfl
    exact ⟨bs, he⟩

/-- **The tunnel format round trip**: whatever was appended to a new buffer comes out in the same
order, commands and payload, up to one last frame without payload. -/
theorem tunnel_round_trip (calls : List TunnelCall) (mem : ℕ → UInt8) (capacity : ℕ+)
    (env : PumpEnv) {conns : Conns} {c : Controller} {n : ℕ}
    (hready : ReadyReceiver conns c (sendAll calls (bufCreate mem capacity)).1.contents
      (sendAll calls (bufCreate mem capacity)).2)
    (hn : (sendAll calls (bufCreate mem capacity)).1.length ≤ n) :
    ∃ c' seen tail, recvAll env conns n c = .ok c' ∧
      recvFromTunnel recordCommand env conns c' = .ok c' ∧
      (sendAll calls (bufCreate mem capacity)).2 = seen ++ tail ∧
      (tail = [] ∨ ∃ id, tail = [.data id []]) ∧
      eventsOf c'.trace = seen.reverse ++ eventsOf c.trace ∧
      (∃ t, lookup c'.slots conns 0 = some t ∧ t.conn.inBuf.contents = stream tail) ∧
      ∀ id bytes, .data id bytes ∈ (sendAll calls (bufCreate mem capacity)).2 →
        ∃ s, lookup c'.slots conns id.toNat = some s ∧
          s.conn.outBuf.contents = payload id (sendAll calls (bufCreate mem capacity)).2 := by
  have hoffset : (bufCreate mem capacity).offset = 0 := rfl
  obtain ⟨hcontents, hvalid⟩ := sendAll_spec calls hoffset
  rw [contents_bufCreate, List.nil_append] at hcontents
  rw [← RoundBuffer.length_contents, hcontents] at hn
  obtain ⟨c', seen, tail, hsplit, hrun, hfew, h'⟩ :=
    (hready.receiver hcontents hvalid).recvAll_run env hn
  have htail := few_iff hfew
  refine ⟨c', seen, tail, hrun, h'.stop hfew env, hsplit, htail, h'.trace, h'.tunnel,
    fun id bytes hid => ?_⟩
  obtain ⟨s, hs, -, hpayload, -⟩ := h'.target id ⟨bytes, hid⟩
  refine ⟨s, hs, hpayload.trans ?_⟩
  rw [hsplit, List.nil_append, payload_append]
  rcases htail with rfl | ⟨i, rfl⟩
  · exact (List.append_nil _).symm
  · rw [payload_cons_data, ite_self, List.nil_append, payload_nil, List.append_nil]

/-! ### A receiver -/

/-- Three calls with the special bytes as id, command, argument and payload; the last one finds
room for an empty frame only. -/
def sampleCalls : List TunnelCall :=
  [.data ((bufCreate (fun _ => 0) 8).put [endByte, 65, escByte]) endByte (by decide),
    .command escByte endByte, .data ((bufCreate (fun _ => 0) 8).put [endByte]) escByte (by decide)]

/-- The buffer after these calls, and what was appended. -/
def sampleSent : RoundBuffer × List TunnelEvent := sendAll sampleCalls (bufCreate (fun _ => 0) 17)

/-- A connection that has got nothing. -/
def sampleTarget (ref : ℕ) (id : UInt8) : Slot where
  ref := ref
  conn := ⟨id.toNat, {}, {}, {}, bufCreate (fun _ => 0) 8, bufCreate (fun _ => 0) 8⟩
  pfd := ⟨ref, {}, {}⟩
  own := ref
  inc := ref

def sampleReceiver : Controller where
  manager :=
    { initManager 8 (-1) (4, 5) with
      slots := [
        { sampleTarget 0 0 with conn := { (sampleTarget 0 0).conn with inBuf := sampleSent.1 } },
        sampleTarget 1 endByte, sampleTarget 2 escByte] }
  pump := ⟨-1, 0, makeCmdQueue (fun _ => ⟨cmdNop, 0, 0⟩) 1⟩
  freeIds := []
  accepting := false
  bufSize := 8

/-- The entries of the array that are not null. -/
def sampleConns (id : ℕ) : Option ℕ :=
  if id = 0 then some 0 else if id = endByte.toNat then some 1
  else if id = escByte.toNat then some 2 else none

theorem events_sampleSent : sampleSent.2 =
    [.data endByte [endByte, 65, escByte], .command escByte endByte, .data escByte []] := by
  decide +kernel

theorem readyReceiver_sample :
    ReadyReceiver sampleConns sampleReceiver sampleSent.1.contents sampleSent.2 where
  idle := rfl
  tunnel := ⟨_, rfl, rfl, rfl⟩
  target := by
    rw [events_sampleSent]
    simp only [List.mem_cons, TunnelEvent.data.injEq, List.not_mem_nil, or_false, reduceCtorEq,
      false_or]
    rintro id bytes (⟨rfl, -⟩ | ⟨rfl, -⟩)
    · exact ⟨_, _, 8, rfl, rfl, rfl, by decide⟩
    · exact ⟨_, _, 8, rfl, rfl, rfl, by decide⟩

/-- What the outside gives to the receiver, which opens no connection. -/
def sampleOutside : PumpEnv := ⟨fun _ => 0, ⟨⟨true, fun _ => 0, fun _ => 0⟩, none, false⟩⟩

/-- The special bytes come out as they went in. -/
theorem tunnel_round_trip_specialBytes :
    ∃ c' s, recvAll sampleOutside sampleConns 17 sampleReceiver = .ok c' ∧
      lookup c'.slots sampleConns endByte.toNat = some s ∧
      s.conn.outBuf.contents = [endByte, 65, escByte] := by
  have hlen : sampleSent.1.length ≤ 17 := sampleSent.1.length_le.trans (by decide)
  obtain ⟨c', -, -, hrun, -, -, -, -, -, hpayload⟩ :=
    tunnel_round_trip sampleCalls (fun _ => 0) 17 sampleOutside readyReceiver_sample hlen
  change ∀ id bytes, .data id bytes ∈ sampleSent.2 → ∃ s, _ ∧ _ =
    payload id sampleSent.2 at hpayload
  rw [events_sampleSent] at hpayload
  obtain ⟨s, hs, hout⟩ := hpayload endByte [endByte, 65, escByte] List.mem_cons_self
  exact ⟨c', s, hrun, hs, hout⟩

end OsTasks.PortForwarding
