import OsTasks.PortForwarding.Receive
import OsTasks.PortForwarding.Updates

/-!
# Two endpoints and the tunnel between them

An accepting and a connecting endpoint are joined by two channels that deliver whole frames in
order. One of the endpoints performs an update at a time, with any events on its sockets; the
frames that it appends to its output of the tunnel enter the one channel, and a frame that
`recv_from_tunnel` finds at the front of its input of the tunnel is the oldest one in the other.

Every frame has a tag: the address of the accepted client connection that it was queued for. The
endpoints keep the tags in fields that no function of the C code has. The connecting endpoint takes
the tag of a connection from the `CMD_NEW` that opens it.

## Main definitions

* `updateFor`: an update, with the tag of the command that it may take.
* `FrameStart`, `Packet`: what is known of a frame in a channel.
* `taking`: what an update takes from the tunnel.
* `System`, `System.after`, `Exchange`: both endpoints, and an update of one of them.
* `SystemRun`: the states that updates lead to.
* `Concerned`, `System.Faultless`: frames are taken for the connections that they were queued for.
* `Orderly`: what an update may do so that this holds.
-/

namespace OsTasks.PortForwarding

/-! ### An update with a tagged command -/

/-- `on_command` for commands with a tag. -/
def onTaggedCommand (tag : ℕ) (env : ConnectEnv) (c : Controller) (command : Command) :
    Controller :=
  onCommand env c { command with tag := tag }

/-- `update`, where the command that may be taken from the tunnel has the tag `tag`. -/
def updateFor (tag : ℕ) (env : Env) (c : Controller) : Except Fault (Controller × CloseCause) := do
  let (c, next) ← beforeTransfer env.poll c
  match next with
  | .inl cause => .ok (c, cause)
  | .inr conns =>
    let c ← pumpTransfer (onTaggedCommand tag env.pump.connect) env.pump conns c
    .ok (c, .none)

/-! ### Frames -/

/-- What `recv_from_tunnel` reads at the start of a frame: a whole command, or the id of a data
frame. -/
inductive FrameStart
  | command (cmd arg : UInt8)
  | data (id : UInt8)
  deriving DecidableEq

/-- The id of the connection that a frame is about. -/
def FrameStart.id : FrameStart → ℕ
  | .command _ arg => arg.toNat
  | .data id => id.toNat

/-- A frame in a channel. The bytes of a data frame make no difference here. -/
structure Packet where
  start : FrameStart
  tag : ℕ
  deriving DecidableEq

/-- The frame of a command. -/
def Command.packet (command : Command) : Packet :=
  ⟨.command command.cmd command.arg, command.tag⟩

/-- The frame that is appended to the output of the tunnel. -/
def PumpEvent.packet : PumpEvent → Option Packet
  | .sent command => some command.packet
  | .encoded s _ => some ⟨.data (toByte s.conn.id), s.inc⟩
  | .queued .. | .received .. | .handled .. | .delivered .. | .dropped .. => none

/-- The frames that are appended, the oldest first. -/
def sentPackets (events : List PumpEvent) : List Packet :=
  (events.filterMap PumpEvent.packet).reverse

/-- The start of the frame at the front of a sequence of bytes, if enough of it is there. -/
def frameStart : List UInt8 → Option FrameStart
  | b₀ :: b₁ :: b₂ :: b₃ :: bytes =>
    if b₀ ≠ endByte then none
    else if b₁ = 0 then if bytes.length = 0 then none else some (.command b₂ b₃)
    else some (.data b₁)
  | _ => none

/-- What `recv_from_tunnel` takes from the tunnel: whether it goes on with a data frame and comes to
its end, and the start of the next frame. -/
structure Taking where
  resumed : Option Bool := none
  start : Option FrameStart := none
  deriving DecidableEq

/-- What `recv_from_tunnel` takes. -/
def taking (env : PumpEnv) (conns : Conns) (c : Controller) : Taking :=
  match lookup c.slots conns 0 with
  | none => {}
  | some tunnel =>
    if bufEmpty tunnel.conn.inBuf then {}
    else if c.pump.sendingTo = -1 then { start := frameStart tunnel.conn.inBuf.contents }
    else
      match lookup c.slots conns c.pump.sendingTo.toNat with
      | none => {}
      | some target =>
        let r := decode env.wild tunnel.conn.inBuf target.conn.outBuf
        { resumed := some r.1, start := if r.1 then frameStart r.2.1.contents else none }

/-- What an update takes from the tunnel. -/
def Env.taking (env : Env) (c : Controller) : Taking :=
  (pumpEntry env.poll c).elim {} fun r => PortForwarding.taking env.pump r.2 r.1

namespace Taking

variable (t : Taking) (inbox : List Packet)

/-- The channel, once the data frame in progress has come to its end. -/
def rest : List Packet := if t.resumed = some true then inbox.tail else inbox

/-- The next frame of the tunnel is the oldest one in the channel. -/
def Honest : Prop := ∀ start ∈ t.start, (t.rest inbox).head?.map Packet.start = some start

instance : Decidable (t.Honest inbox) :=
  inferInstanceAs (Decidable (∀ start ∈ t.start, _ = some start))

/-- The tag of the next frame. -/
def tag : ℕ := ((t.rest inbox).head?.map Packet.tag).getD 0

/-- The channel after the update. A data frame stays until it has come to its end. -/
def left (idle : Bool) : List Packet :=
  match t.start with
  | none => t.rest inbox
  | some (.command _ _) => (t.rest inbox).tail
  | some (.data _) => if idle then (t.rest inbox).tail else t.rest inbox

/-- The tags of the data frames that bytes are delivered of. -/
def dataTags : List ℕ :=
  (if t.resumed.isSome then [(inbox.head?.map Packet.tag).getD 0] else []) ++
    match t.start with
    | some (.data _) => [t.tag inbox]
    | _ => []

end Taking

/-! ### The system -/

/-- Two endpoints, and the frames on their way to each of them, the oldest first. -/
structure System where
  a : Controller
  b : Controller
  toA : List Packet
  toB : List Packet

namespace System

/-- The same, with the endpoints exchanged. -/
def swap (s : System) : System := ⟨s.b, s.a, s.toB, s.toA⟩

/-- An accepting endpoint `a` and a connecting endpoint `b`. -/
def start (envA envB : StartEnv) (bufSizeA bufSizeB : ℕ+) : System :=
  ⟨startController envA bufSizeA true, startController envB bufSizeB false, [], []⟩

/-- The update of `a` in an environment. -/
def updateA (s : System) (env : Env) : Except Fault (Controller × CloseCause) :=
  updateFor ((env.taking s.a).tag s.toA) env s.a

/-- The events of `a` since the state `s`. -/
def newEvents (s : System) (a' : Controller) : List PumpEvent :=
  a'.trace.take (a'.trace.length - s.a.trace.length)

/-- The system after an update of `a`. -/
def after (s : System) (env : Env) (a' : Controller) : System where
  a := a'
  b := s.b
  toA := (env.taking s.a).left s.toA (a'.pump.sendingTo = -1)
  toB := s.toB ++ sentPackets (s.newEvents a')

end System

/-- An update of `a` that takes the frames that its peer has sent, and does not end it. -/
structure Exchange (s : System) (env : Env) (a' : Controller) : Prop where
  honest : (env.taking s.a).Honest s.toA
  update : s.updateA env = .ok (a', .none)

/-- The states of the system after any number of updates of either endpoint, all of which meet the
condition `G`. -/
inductive SystemRun (G : System → Env → Controller → Prop) : System → Prop
  | start (envA envB : StartEnv) (bufSizeA bufSizeB : ℕ+) :
      SystemRun G (.start envA envB bufSizeA bufSizeB)
  | first {s : System} {env : Env} {a' : Controller} (h : SystemRun G s) (hx : Exchange s env a')
      (hG : G s env a') : SystemRun G (s.after env a')
  | second {s : System} {env : Env} {b' : Controller} (h : SystemRun G s)
      (hx : Exchange s.swap env b') (hG : G s.swap env b') :
      SystemRun G (s.swap.after env b').swap

/-! ### What the frames concern -/

/-- The tags of the connections that payload was delivered to, in order. -/
def deliveredTags (events : List PumpEvent) : List ℕ :=
  events.reverse.filterMap fun
    | .delivered _ _ s _ => some s.inc
    | _ => none

/-- A command is handled for a connection with the tag, if for any. -/
def PumpEvent.Concerns (tag : ℕ) : PumpEvent → Prop
  | .handled _ (some t) _ _ => t.inc = tag
  | _ => True

instance (tag : ℕ) : DecidablePred (PumpEvent.Concerns tag)
  | .handled _ (some t) _ _ => inferInstanceAs (Decidable (t.inc = tag))
  | .handled _ none _ _ | .queued .. | .received .. | .delivered .. | .sent .. | .dropped ..
  | .encoded .. => isTrue trivial

/-- The frames that the update of `a` takes concern the connections that they were queued for. -/
structure Concerned (s : System) (env : Env) (a' : Controller) : Prop where
  handled : ∀ e ∈ s.newEvents a', e.Concerns ((env.taking s.a).tag s.toA)
  delivered : deliveredTags (s.newEvents a') = (env.taking s.a).dataTags s.toA

instance (s : System) (env : Env) (a' : Controller) : Decidable (Concerned s env a') :=
  decidable_of_iff (_ ∧ _) ⟨fun h => ⟨h.1, h.2⟩, fun h => ⟨h.1, h.2⟩⟩

/-- The updates of `a` that meet the condition `G` take frames for the connections that these frames
were queued for, and do not exit because of a frame for a closed connection. -/
structure System.Faultless (G : System → Env → Controller → Prop) (s : System) : Prop where
  concerned : ∀ env a', Exchange s env a' → G s env a' → Concerned s env a'
  runs : ∀ env, (env.taking s.a).Honest s.toA →
    (∀ a₁ next, beforeTransfer env.poll s.a = .ok (a₁, next) → G s env a₁) →
    s.updateA env ≠ .error .closedConnection

/-! ### Orderly updates -/

/-- The ids that an update takes from the stack. -/
def given (env : PollEnv) (c : Controller) : List ℤ :=
  match cmPoll env c.manager with
  | .ok (m, .none) =>
    c.freeIds.take
      (c.freeIds.length - (Controller.sort { c with manager := m }).freeIds.length)
  | _ => []

/-- A connection with the id is listed, and is not about to be removed. -/
def Serves (c : Controller) (i : ℤ) : Prop :=
  ∃ t ∈ c.slots, t.conn.id = i ∧ t.conn.state.delete = false

instance (c : Controller) (i : ℤ) : Decidable (Serves c i) :=
  inferInstanceAs (Decidable (∃ t ∈ c.slots, _ ∧ _))

/-- Nothing is left of the connections that have had the id: neither endpoint serves one or has
queued a command about one, and no frame about one is on its way. -/
structure System.Unused (s : System) (i : ℤ) : Prop where
  a : ¬ Serves s.a i
  b : ¬ Serves s.b i
  queueA : ∀ command ∈ s.a.pump.cmdQueue.contents, (command.arg.toNat : ℤ) ≠ i
  queueB : ∀ command ∈ s.b.pump.cmdQueue.contents, (command.arg.toNat : ℤ) ≠ i
  toA : ∀ p ∈ s.toA, (p.start.id : ℤ) ≠ i
  toB : ∀ p ∈ s.toB, (p.start.id : ℤ) ≠ i

instance (s : System) (i : ℤ) : Decidable (s.Unused i) :=
  decidable_of_iff (_ ∧ _ ∧ _ ∧ _ ∧ _ ∧ _) ⟨fun h => ⟨h.1, h.2.1, h.2.2.1, h.2.2.2.1, h.2.2.2.2.1,
    h.2.2.2.2.2⟩, fun h => ⟨h.1, h.2, h.3, h.4, h.5, h.6⟩⟩

/-- The id that `CMD_CLOSE` is queued for: the connection has ended, or it could not be opened. -/
def PumpEvent.closes : PumpEvent → Option ℕ
  | .queued s cmd => if cmd = cmdClose then some s.conn.id.toNat else none
  | .handled command none _ false => if command.cmd = cmdNew then some command.arg.toNat else none
  | _ => none

/-- The id that data is encoded for. -/
def PumpEvent.encodes : PumpEvent → Option ℤ
  | .encoded s _ => some s.conn.id
  | _ => none

/-- The id that a data frame is for. -/
def FrameStart.dataId : FrameStart → Option ℕ
  | .command _ _ => none
  | .data id => some id.toNat

/-- An update of `a` in which a client gets an id only when nothing is left of its earlier
connections, `CMD_CLOSE` is queued for an id only when no data for it is on its way to `a`, and data
is encoded only for a connection that `b` serves, or that `CMD_NEW` is on its way for. -/
structure Orderly (s : System) (env : Env) (a' : Controller) : Prop where
  given_nodup : (given env.poll s.a).Nodup
  given_unused : ∀ i ∈ given env.poll s.a, s.Unused i
  closed : ∀ e ∈ s.newEvents a', ∀ i ∈ e.closes, ∀ p ∈ s.toA, p.start.dataId ≠ some i
  encoded : ∀ e ∈ s.newEvents a', ∀ i ∈ e.encodes, Serves s.b i ∨
    ∃ p ∈ s.toB ++ sentPackets (s.newEvents a'), p.start = .command cmdNew (toByte i)

instance (s : System) (env : Env) (a' : Controller) : Decidable (Orderly s env a') :=
  decidable_of_iff (_ ∧ _ ∧ _ ∧ _) ⟨fun h => ⟨h.1, h.2.1, h.2.2.1, h.2.2.2⟩,
    fun h => ⟨h.1, h.2, h.3, h.4⟩⟩

/-! ### Sample runs -/

section Play

variable (G : System → Env → Controller → Prop) [∀ s env a', Decidable (G s env a')]

/-- The system after an update of `a` in an environment, if it meets the condition. -/
def System.turn (s : System) (env : Env) : Option System :=
  match s.updateA env with
  | .ok (a', .none) =>
    if (env.taking s.a).Honest s.toA ∧ G s env a' then some (s.after env a') else none
  | _ => none

/-- The system after updates of `a` and, where it is marked so, of `b`. -/
def System.play : List (Bool × Env) → System → Option System
  | [], s => some s
  | (false, env) :: turns, s => (s.turn G env).bind (play turns)
  | (true, env) :: turns, s => (s.swap.turn G env).bind fun s => play turns s.swap

variable {G}

theorem System.exists_of_turn {s s' : System} {env : Env} (h : s.turn G env = some s') :
    ∃ a', Exchange s env a' ∧ G s env a' ∧ s.after env a' = s' := by
  unfold System.turn at h
  split at h
  · rename_i a' hupdate
    split_ifs at h with hboth
    exact ⟨a', ⟨hboth.1, hupdate⟩, hboth.2, Option.some.inj h⟩
  · cases h

theorem SystemRun.play {turns : List (Bool × Env)} {s s' : System} (h : SystemRun G s)
    (hplay : s.play G turns = some s') : SystemRun G s' := by
  induction turns generalizing s with
  | nil => exact Option.some.inj hplay ▸ h
  | cons turn turns ih =>
    obtain ⟨second, env⟩ := turn
    cases second with
    | false =>
      obtain ⟨s₁, hturn, hrest⟩ := Option.bind_eq_some_iff.mp hplay
      obtain ⟨a', hx, hG, rfl⟩ := System.exists_of_turn hturn
      exact ih (h.first hx hG) hrest
    | true =>
      obtain ⟨s₁, hturn, hrest⟩ := Option.bind_eq_some_iff.mp hplay
      obtain ⟨b', hx, hG, rfl⟩ := System.exists_of_turn hturn
      exact ih (h.second hx hG) hrest

end Play

end OsTasks.PortForwarding
