import OsTasks.PortForwarding.Departures
import OsTasks.PortForwarding.Intake
import OsTasks.PortForwarding.SocketBytes
import OsTasks.PortForwarding.TunnelFormat

/-!
# Accounts of the bytes that are moved

The pump takes bytes from the inputs of the connections and puts them, as frames, behind the output
of the tunnel; and it puts the payload of the frames from the tunnel behind the outputs of the
connections. What it has moved is in the events of the trace.

## Main definitions

* `Frame`, `sentFrames`, `frameBytes`: the frames that are appended to the output of the tunnel.
* `encodedAt`, `deliveredAt`: the bytes taken from and given to the connection with a key.
* `Flow`: the accounts of all connections and of the tunnel over a part of an update.
* `Conveys`: these accounts balance, as long as no output wraps.

## Main results

* `Flow.of_slots`: the accounts of the connections from those of their slots.
* `conveys_of_slots`, `conveys_of_silent`: steps that change the slots one by one.
-/

namespace OsTasks.PortForwarding

/-! ### What the events carry -/

/-- A frame with the tag of the connection that it is about. -/
structure Frame where
  event : TunnelEvent
  tag : ℕ

/-- The frame as `recv_from_tunnel` meets it. -/
def Frame.packet (f : Frame) : Packet where
  start :=
    match f.event with
    | .command cmd arg => .command cmd arg
    | .data id _ => .data id
  tag := f.tag

/-- The frame that an event appends to the output of the tunnel. -/
def PumpEvent.frame : PumpEvent → Option Frame
  | .sent command => some ⟨.command command.cmd command.arg, command.tag⟩
  | .encoded s bytes => some ⟨.data (toByte s.conn.id) bytes, s.inc⟩
  | .queued .. | .received .. | .handled .. | .delivered .. | .dropped .. => none

/-- The frames that are appended, the oldest first. -/
def sentFrames (events : List PumpEvent) : List Frame := (events.filterMap PumpEvent.frame).reverse

/-- The bytes of a sequence of frames. -/
def frameBytes (frames : List Frame) : List UInt8 := stream (frames.map Frame.event)

/-- The bytes that an event takes from the connection with a key. -/
def PumpEvent.takenFrom (key : Slot → ℕ) (k : ℕ) : PumpEvent → List UInt8
  | .encoded s bytes => if key s = k then bytes else []
  | .queued .. | .received .. | .handled .. | .delivered .. | .sent .. | .dropped .. => []

/-- The bytes that an event gives to the connection with a key. -/
def PumpEvent.givenTo (key : Slot → ℕ) (k : ℕ) : PumpEvent → List UInt8
  | .delivered _ _ s bytes => if key s = k then bytes else []
  | .queued .. | .received .. | .handled .. | .encoded .. | .sent .. | .dropped .. => []

/-- The bytes taken from the connection with a key, in order. -/
def encodedAt (key : Slot → ℕ) (events : List PumpEvent) (k : ℕ) : List UInt8 :=
  events.reverse.flatMap (PumpEvent.takenFrom key k)

/-- The bytes given to the connection with a key, in order. -/
def deliveredAt (key : Slot → ℕ) (events : List PumpEvent) (k : ℕ) : List UInt8 :=
  events.reverse.flatMap (PumpEvent.givenTo key k)

variable {key : Slot → ℕ} {events later : List PumpEvent} {k : ℕ}

theorem sentFrames_append (later events : List PumpEvent) :
    sentFrames (later ++ events) = sentFrames events ++ sentFrames later := by
  unfold sentFrames
  rw [List.filterMap_append, List.reverse_append]

theorem frameBytes_append (frames frames' : List Frame) :
    frameBytes (frames ++ frames') = frameBytes frames ++ frameBytes frames' := by
  unfold frameBytes stream
  rw [List.map_append, List.flatMap_append]

theorem encodedAt_append (later events : List PumpEvent) (k : ℕ) :
    encodedAt key (later ++ events) k = encodedAt key events k ++ encodedAt key later k := by
  unfold encodedAt
  rw [List.reverse_append, List.flatMap_append]

theorem deliveredAt_append (later events : List PumpEvent) (k : ℕ) :
    deliveredAt key (later ++ events) k = deliveredAt key events k ++ deliveredAt key later k := by
  unfold deliveredAt
  rw [List.reverse_append, List.flatMap_append]

@[simp] theorem encodedAt_singleton (e : PumpEvent) : encodedAt key [e] k = e.takenFrom key k :=
  List.append_nil _

@[simp] theorem deliveredAt_singleton (e : PumpEvent) : deliveredAt key [e] k = e.givenTo key k :=
  List.append_nil _

@[simp] theorem sentFrames_singleton (e : PumpEvent) : sentFrames [e] = e.frame.toList := by
  unfold sentFrames
  rw [List.filterMap_cons]
  cases e.frame <;> rfl

theorem packet_of_frame (e : PumpEvent) : e.frame.map Frame.packet = e.packet := by
  cases e <;> rfl

/-- The frames are those of the channel between two endpoints. -/
theorem map_packet_sentFrames (events : List PumpEvent) :
    (sentFrames events).map Frame.packet = sentPackets events := by
  unfold sentFrames sentPackets
  rw [List.map_reverse, List.map_filterMap]
  exact congrArg _ (List.filterMap_congr fun e _ => packet_of_frame e)

/-- Events that move no payload and append no frame. -/
structure Silent (key : Slot → ℕ) (events : List PumpEvent) : Prop where
  encoded : ∀ k, encodedAt key events k = []
  delivered : ∀ k, deliveredAt key events k = []
  frames : sentFrames events = []

theorem silent_nil : Silent key [] := ⟨fun _ => rfl, fun _ => rfl, rfl⟩

/-! ### The accounts -/

/-- The accounts over a part of an update, by keys. The tunnel has the key `kt`. -/
structure Flow (key : Slot → ℕ) (kt : ℕ) (slots slots' : List Slot) (events : List PumpEvent) :
    Prop where
  input : ∀ k, k ≠ kt →
    Passes (inputAt key slots k) [] (encodedAt key events k) (inputAt key slots' k)
  output : ∀ k, k ≠ kt →
    Passes (outputAt key slots k) (deliveredAt key events k) [] (outputAt key slots' k)
  tunnel : Passes (outputAt key slots kt) (frameBytes (sentFrames events)) []
    (outputAt key slots' kt)

variable {kt : ℕ} {slots slots' slots'' new : List Slot}

theorem Flow.refl (slots : List Slot) : Flow key kt slots slots [] :=
  ⟨fun _ _ => .refl _, fun _ _ => .refl _, .refl _⟩

theorem Flow.trans (h : Flow key kt slots slots' events) (h' : Flow key kt slots' slots'' later) :
    Flow key kt slots slots'' (later ++ events) where
  input k hk := encodedAt_append later events k ▸ (h.input k hk).trans (h'.input k hk)
  output k hk := deliveredAt_append later events k ▸ (h.output k hk).trans (h'.output k hk)
  tunnel := by
    rw [sentFrames_append, frameBytes_append]
    exact h.tunnel.trans h'.tunnel

/-- The accounts of one slot. -/
structure SlotFlow (key : Slot → ℕ) (kt : ℕ) (events : List PumpEvent) (s s' : Slot) : Prop where
  same : key s' = key s
  input : key s ≠ kt →
    Passes s.conn.inBuf.contents [] (encodedAt key events (key s)) s'.conn.inBuf.contents
  output : key s ≠ kt →
    Passes s.conn.outBuf.contents (deliveredAt key events (key s)) [] s'.conn.outBuf.contents
  tunnel : key s = kt →
    Passes s.conn.outBuf.contents (frameBytes (sentFrames events)) [] s'.conn.outBuf.contents

/-- A slot whose buffers stay as they are, apart from the input of the tunnel. -/
theorem SlotFlow.of_silent (h : Silent key events) {s s' : Slot} (hkey : key s' = key s)
    (hin : key s ≠ kt → s'.conn.inBuf = s.conn.inBuf) (hout : s'.conn.outBuf = s.conn.outBuf) :
    SlotFlow key kt events s s' where
  same := hkey
  input hk := by
    rw [h.encoded, hin hk]
    exact .refl _
  output _ := by
    rw [h.delivered, hout]
    exact .refl _
  tunnel _ := by
    rw [h.frames, hout]
    exact .refl _

/-- The accounts of the slots make up those of the keys. Behind the slots there may be new ones. -/
theorem Flow.of_slots (h : List.Forall₂ (SlotFlow key kt events) slots slots')
    (hother : ∀ k, k ≠ kt → (∀ s ∈ slots, key s ≠ k) →
      encodedAt key events k = [] ∧ deliveredAt key events k = [])
    (htunnel : (∃ s ∈ slots, key s = kt) ∨ sentFrames events = [])
    (hnew : ∀ s ∈ new, s.conn.inBuf.contents = [] ∧ s.conn.outBuf.contents = []) :
    Flow key kt slots (slots' ++ new) events := by
  have hsame : ∀ s s', SlotFlow key kt events s s' → key s' = key s := fun _ _ hs => hs.same
  refine ⟨fun k hk => ?_, fun k hk => ?_, ?_⟩
  · unfold inputAt
    rw [heldAt_append fun s hs => (hnew s hs).1]
    refine heldAt_rel (P := fun l l' => Passes l [] _ l') h hsame (fun hnone => ?_) ?_
    · rw [(hother k hk hnone).1]
      exact .refl _
    · rintro s s' rfl hs
      exact hs.input hk
  · unfold outputAt
    rw [heldAt_append fun s hs => (hnew s hs).2]
    refine heldAt_rel (P := fun l l' => Passes l _ [] l') h hsame (fun hnone => ?_) ?_
    · rw [(hother k hk hnone).2]
      exact .refl _
    · rintro s s' rfl hs
      exact hs.output hk
  · unfold outputAt
    rw [heldAt_append fun s hs => (hnew s hs).2]
    refine heldAt_rel (P := fun l l' => Passes l _ [] l') h hsame (fun hnone => ?_) ?_
    · rw [htunnel.resolve_left fun ⟨s, hs, hk⟩ => hnone s hs hk]
      exact .refl _
    · rintro s s' hk hs
      exact hs.tunnel hk

/-! ### Steps of the pump -/

/-- The connections have different keys, and no output wraps. -/
structure Straight (key : Slot → ℕ) (slots : List Slot) : Prop where
  nodup : (slots.map key).Nodup
  output : ∀ s ∈ slots, s.conn.outBuf.Unwrapped

/-- The accounts balance, as long as no output wraps. -/
def Conveys (key : Slot → ℕ) (kt : ℕ) (c c' : Controller) : Prop :=
  Straight key c'.slots → Straight key c.slots ∧
    ∃ events, c'.trace = events ++ c.trace ∧ Flow key kt c.slots c'.slots events

variable {c c' c'' : Controller}

theorem Conveys.of_same (hslots : c'.slots = c.slots) (htrace : c'.trace = c.trace) :
    Conveys key kt c c' := by
  unfold Conveys
  rw [hslots, htrace]
  exact fun h => ⟨h, [], rfl, .refl _⟩

theorem Conveys.trans (h : Conveys key kt c c') (h' : Conveys key kt c' c'') :
    Conveys key kt c c'' := by
  intro hstraight
  obtain ⟨hstraight', events', htrace', hflow'⟩ := h' hstraight
  obtain ⟨hstraight'', events, htrace, hflow⟩ := h hstraight'
  exact ⟨hstraight'', events' ++ events, by rw [htrace', htrace, List.append_assoc],
    hflow.trans hflow'⟩

/-- A step that changes the slots one by one and may add empty ones. -/
theorem conveys_of_slots {slots' : List Slot}
    (hslots : c'.slots = slots' ++ new) (htrace : c'.trace = events ++ c.trace)
    (hrel : List.Forall₂ (fun s s' => key s' = key s ∧
      (s'.conn.outBuf.Unwrapped → s.conn.outBuf.Unwrapped)) c.slots slots')
    (hflow : Straight key c.slots → List.Forall₂ (SlotFlow key kt events) c.slots slots' ∧
      (∀ k, k ≠ kt → (∀ s ∈ c.slots, key s ≠ k) →
        encodedAt key events k = [] ∧ deliveredAt key events k = []) ∧
      ((∃ s ∈ c.slots, key s = kt) ∨ sentFrames events = []))
    (hnew : ∀ s ∈ new, s.conn.inBuf.contents = [] ∧ s.conn.outBuf.contents = []) :
    Conveys key kt c c' := by
  intro hstraight
  rw [hslots] at hstraight
  have hkeys : slots'.map key = c.slots.map key := by
    have hmap : List.Forall₂ (fun k k' => k' = k) (c.slots.map key) (slots'.map key) := by
      rw [List.forall₂_map_left_iff, List.forall₂_map_right_iff]
      exact hrel.imp fun _ _ hs => hs.1
    exact (List.forall₂_eq_eq_eq ▸ hmap.flip :)
  have hstraight' : Straight key c.slots := by
    refine ⟨?_, fun s hs => ?_⟩
    · rw [← hkeys]
      exact (List.map_append ▸ hstraight.nodup).of_append_left
    · obtain ⟨s', hs', hwrap⟩ := exists_of_forall₂_of_mem hrel.flip hs
      exact hwrap.2 (hstraight.output s' (List.mem_append_left _ hs'))
  obtain ⟨hall, hother, htunnel⟩ := hflow hstraight'
  exact ⟨hstraight', events, htrace, hslots ▸ .of_slots hall hother htunnel hnew⟩

/-- A step that moves nothing, except out of the input of the tunnel. -/
theorem conveys_of_silent {slots' : List Slot} (hsilent : Silent key events)
    (hslots : c'.slots = slots' ++ new) (htrace : c'.trace = events ++ c.trace)
    (hrel : List.Forall₂ (fun s s' => key s' = key s ∧
      (key s ≠ kt → s'.conn.inBuf = s.conn.inBuf) ∧ s'.conn.outBuf = s.conn.outBuf)
        c.slots slots')
    (hnew : ∀ s ∈ new, s.conn.inBuf.contents = [] ∧ s.conn.outBuf.contents = []) :
    Conveys key kt c c' := by
  refine conveys_of_slots hslots htrace (hrel.imp fun s s' hs => ⟨hs.1, fun h => hs.2.2 ▸ h⟩)
    (fun _ => ⟨hrel.imp fun s s' hs => .of_silent hsilent hs.1 hs.2.1 hs.2.2, fun k _ _ => ?_,
      .inr hsilent.frames⟩) hnew
  exact ⟨hsilent.encoded k, hsilent.delivered k⟩

end OsTasks.PortForwarding
