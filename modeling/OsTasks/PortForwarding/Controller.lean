import Mathlib.Data.PNat.Basic
import OsTasks.PortForwarding.Pump

/-!
# The controller

`controller.c` runs one endpoint. `update` polls the sockets, gives ids to new clients, announces
to the peer what has happened to the connections, and lets the pump transfer; commands of the peer
come back through `on_command`.

An accepting endpoint has a listening socket and a stack of free ids; a connecting endpoint opens
a connection to the service for every `CMD_NEW`. The results of the operating system are given to
every `update` by an environment.

## Main definitions

* `cmdNew`, `cmdClose`, `cmdCloseSrcToDst`, `cmdCloseDstToSrc`, `cmdAck`.
* `idStackInit`, `idStackPush`, `sortConnections`.
* `handleStateChanges`, `onCommand`, `startController`, `update`.
* `Reach`: the states an endpoint can be in between two updates.
-/

namespace OsTasks.PortForwarding

/-! ### Commands -/

/-- `CMD_NEW`. -/
def cmdNew : UInt8 := 1

/-- `CMD_CLOSE`. -/
def cmdClose : UInt8 := 2

/-- `CMD_CLOSE_SRC_TO_DST`. -/
def cmdCloseSrcToDst : UInt8 := 3

/-- `CMD_CLOSE_DST_TO_SRC`. -/
def cmdCloseDstToSrc : UInt8 := 4

/-- `CMD_ACK`. -/
def cmdAck : UInt8 := 5

/-! ### The stack of free ids -/

/-- `MAX_STACK_SIZE`. -/
def maxStackSize : ℕ := maxConnections - 1

/-- `id_stack_init`: the ids `1..255`, with `1` on top. -/
def idStackInit : List ℤ := (List.range' 1 maxStackSize).map Int.ofNat

/-- `id_stack_push`; an overflow is printed and changes nothing. -/
def idStackPush (s : List ℤ) (id : ℤ) : List ℤ :=
  if s.length = maxStackSize then s else id :: s

/-- `sort_connections`. A connection without an id takes one from the stack, and is left out if
the stack is empty. The results are the stack, the slots with their ids, and the array. -/
def sortConnections : List ℤ → List Slot → Conns → List ℤ × List Slot × Conns
  | stack, [], sorted => (stack, [], sorted)
  | stack, s :: rest, sorted =>
    if maxConnections < s.conn.id ∨ s.conn.id < 0 then
      match stack with
      | [] =>
        let r := sortConnections [] rest sorted
        (r.1, s :: r.2.1, r.2.2)
      | id :: stack =>
        let r := sortConnections stack rest (Function.update sorted id.toNat (some s.ref))
        (r.1, { s with conn := { s.conn with id := id } } :: r.2.1, r.2.2)
    else
      let r := sortConnections stack rest (Function.update sorted s.conn.id.toNat (some s.ref))
      (r.1, s :: r.2.1, r.2.2)

/-! ### Announcing the changes of the connections -/

def isNewConnection (c : Connection) : Bool := c.state.new

def shouldCloseConnection (c : Connection) : Bool :=
  bufEmpty c.inBuf && bufEmpty c.outBuf && c.state.closed

def shouldCloseIn (c : Connection) : Bool := bufEmpty c.inBuf && c.inState.closed

def shouldCloseOut (c : Connection) : Bool := bufEmpty c.outBuf && c.outState.closed

/-- `STATE_OK`, `STATE_AGAIN` and `STATE_SHUTDOWN`. -/
inductive StateResult
  | ok
  | again
  | shutdown
  deriving DecidableEq

/-- One turn of the loop of `handle_state_changes`: the slot and the queue so far, the commands
queued in it, whether the queue was full, and whether the connection was closed. -/
structure Turn where
  slot : Slot
  queue : CmdQueue
  events : List PumpEvent := []
  again : Bool := false
  closed : Bool := false

/-- `if (!send_command(pump, cmd, c->id)) return STATE_AGAIN;` and the change of the connection
that follows. -/
def Turn.send (t : Turn) (cmd : UInt8) (change : Connection → Connection) : Turn :=
  match cmdqEnqueue t.queue ⟨cmd, toByte t.slot.conn.id, t.slot.inc⟩ with
  | none => { t with again := true }
  | some q =>
    { t with
      slot := { t.slot with conn := change t.slot.conn }
      queue := q
      events := .queued t.slot cmd :: t.events }

/-- A connection that has just been accepted is announced and stopped until the peer answers. -/
def announceNew (t : Turn) : Turn :=
  if isNewConnection t.slot.conn then
    t.send cmdNew fun c => { c with state := { c.state with new := false, stopped := true } }
  else t

/-- A connection whose socket is closed and whose buffers are empty is closed for the peer. -/
def announceClose (t : Turn) : Turn :=
  let t := t.send cmdClose fun c => { c with state := { c.state with delete := true } }
  { t with closed := !t.again }

def announceCloseIn (t : Turn) : Turn :=
  if !t.slot.conn.inState.delete && shouldCloseIn t.slot.conn then
    t.send cmdCloseSrcToDst fun c => { c with inState := { c.inState with delete := true } }
  else t

def announceCloseOut (t : Turn) : Turn :=
  if !t.slot.conn.outState.delete && shouldCloseOut t.slot.conn then
    t.send cmdCloseDstToSrc fun c => { c with outState := { c.outState with delete := true } }
  else t

/-- The body of the loop of `handle_state_changes`. -/
def stateTurn (s : Slot) (queue : CmdQueue) : Turn :=
  let t := announceNew { slot := s, queue := queue }
  if t.again then t
  else if shouldCloseConnection t.slot.conn then announceClose t
  else
    let t := announceCloseIn t
    if t.again then t else announceCloseOut t

/-- Writes back what a turn has done; the id of a closed connection is free again. -/
def Controller.apply (c : Controller) (s : Slot) (t : Turn) : Controller :=
  { (c.modify s.ref fun _ => t.slot.conn).setQueue t.queue with
    freeIds := if t.closed && c.accepting then idStackPush c.freeIds s.conn.id else c.freeIds
    trace := t.events ++ c.trace }

/-- The loop of `handle_state_changes` over the given ids. -/
def stateLoop : List ℕ → Conns → Controller → StateResult × Controller × Conns
  | [], conns, c => (.ok, c, conns)
  | i :: is, conns, c =>
    match lookup c.slots conns i with
    | none => stateLoop is conns c
    | some s =>
      let t := stateTurn s c.pump.cmdQueue
      let c := c.apply s t
      if t.again then (.again, c, conns)
      else stateLoop is (if t.closed then Function.update conns i none else conns) c

/-- `handle_state_changes`. -/
def handleStateChanges (conns : Conns) (tunnel : Slot) (c : Controller) :
    StateResult × Controller × Conns :=
  if tunnel.conn.state.closed || tunnel.conn.inState.closed || tunnel.conn.outState.closed then
    (.shutdown, c, conns)
  else stateLoop (List.range' 1 255) conns c

/-! ### Commands of the peer -/

/-- `send_command` where a full queue is only printed. -/
def sendOrWarn (c : Controller) (command : Command) : Controller :=
  (sendCommand c command).getD c

/-- What a command does to the connection with its id. -/
def commandChange (cmd : UInt8) (c : Connection) : Connection :=
  if cmd = cmdClose then { c with state := { c.state with delete := true } }
  else if cmd = cmdCloseSrcToDst then { c with outState := { c.outState with delete := true } }
  else if cmd = cmdCloseDstToSrc then { c with inState := { c.inState with delete := true } }
  else if cmd = cmdAck then { c with state := { c.state with stopped := false } }
  else c

/-- `on_command`. -/
def onCommand (env : ConnectEnv) (c : Controller) (command : Command) : Controller :=
  let id : ℤ := command.arg.toNat
  let target := c.slots.find? fun s => s.conn.id == id
  let event := PumpEvent.handled command target c.freeIds
  if command.cmd = cmdNew then
    match target with
    | some _ => c.note (event false)
    | none =>
      let r := cmConnect env c.manager c.bufSize c.bufSize id command.tag
      let c := { c.note (event r.1) with manager := r.2 }
      sendOrWarn c ⟨if r.1 then cmdAck else cmdClose, command.arg, command.tag⟩
  else if command.cmd = cmdClose ∨ command.cmd = cmdCloseSrcToDst ∨
      command.cmd = cmdCloseDstToSrc ∨ command.cmd = cmdAck then
    match target with
    | none => c.note (event false)
    | some s =>
      let c := (c.note (event false)).modify s.ref (commandChange command.cmd)
      if command.cmd = cmdClose && c.accepting then
        { c with freeIds := idStackPush c.freeIds s.conn.id }
      else c
  else c.note (event false)

/-! ### The endpoint -/

/-- `QUEUE_SIZE`. -/
def queueSize : ℕ+ := ⟨maxConnections * 2, by decide⟩

/-- `TUNNEL_BUF_SIZE_MULTIPLIER`. -/
def tunnelBufSizeMultiplier : ℕ+ := 10

/-- What the system calls of `start_controller` have returned: the listening socket of an accepting
endpoint, the shutdown pipe, the socket of the tunnel, and the arrays of the queue and of the
tunnel's buffers. -/
structure StartEnv where
  listener : ℕ
  pipe : ℕ × ℕ
  tunnel : ℕ
  queueMem : ℕ → Command
  inMem : ℕ → UInt8
  outMem : ℕ → UInt8

/-- The connection of the tunnel. -/
def tunnelConnection (env : StartEnv) (bufSize : ℕ+) : Connection where
  id := 0
  state := {}
  inState := {}
  outState := {}
  inBuf := bufCreate env.inMem (bufSize * tunnelBufSizeMultiplier)
  outBuf := bufCreate env.outMem (bufSize * tunnelBufSizeMultiplier)

/-- `start_controller`, when nothing fails: the tunnel is the only connection. -/
def startController (env : StartEnv) (bufSize : ℕ+) (accepting : Bool) : Controller where
  manager :=
    { initManager bufSize (if accepting then env.listener else -1) env.pipe with
      slots :=
        [{ ref := 0
           conn := tunnelConnection env bufSize
           pfd := { fd := env.tunnel, events := { pollin := true }, revents := {} }
           own := env.tunnel
           inc := 0 }]
      nextRef := 1
      log := [.opened 0 env.tunnel] }
  pump := { sendingTo := -1, currentIndex := 0, cmdQueue := makeCmdQueue env.queueMem queueSize }
  freeIds := idStackInit
  accepting := accepting
  bufSize := bufSize

/-- What the outside gives to one call of `update`. -/
structure Env where
  poll : PollEnv
  pump : PumpEnv

/-- `update` up to the call of `pump_transfer`: either it has returned, or the pump is entered with
the sorted array. Without any connection there is no tunnel, and both cases return alike. -/
def beforeTransfer (env : PollEnv) (c : Controller) :
    Except Fault (Controller × (CloseCause ⊕ Conns)) := do
  let (m, cause) ← cmPoll env c.manager
  let c := { c with manager := m }
  if cause ≠ .none then .ok (c, .inl cause)
  else
    let r := sortConnections c.freeIds c.slots fun _ => none
    let c := { c.setSlots r.2.1 with freeIds := r.1 }
    match lookup c.slots r.2.2 0 with
    | none => .ok (c, .inl .none)
    | some tunnel =>
      match handleStateChanges r.2.2 tunnel c with
      | (.again, c, _) => .ok (c, .inl .none)
      | (.shutdown, c, _) => .ok (c, .inl .error)
      | (.ok, c, conns) => .ok (c, .inr conns)

/-- `update`. -/
def update (env : Env) (c : Controller) : Except Fault (Controller × CloseCause) := do
  let (c, next) ← beforeTransfer env.poll c
  match next with
  | .inl cause => .ok (c, cause)
  | .inr conns =>
    let c ← pumpTransfer (onCommand env.pump.connect) env.pump conns c
    .ok (c, .none)

/-- The states of an endpoint after any number of updates that returned `CLOSE_CAUSE_NONE`. -/
inductive Reach (bufSize : ℕ+) (accepting : Bool) : Controller → Prop
  | start (env : StartEnv) : Reach bufSize accepting (startController env bufSize accepting)
  | update {c c' : Controller} (env : Env) (h : Reach bufSize accepting c)
      (hc : update env c = .ok (c', .none)) : Reach bufSize accepting c'

end OsTasks.PortForwarding
