import OsTasks.PortForwarding.CommandQueue
import OsTasks.PortForwarding.Frames
import OsTasks.PortForwarding.Manager

/-!
# The pump

`pump.c` moves bytes between the tunnel, which is the connection with id `0`, and the other
connections. It works on an array `connections` that the controller has sorted by id: entry `id`
points to the connection with that id, or is null. A pointer is the address `ref` of a connection
object, and the object is looked up in the slots of the manager.

The state of an endpoint is here, since the command handler that the pump calls reaches all of it.
`trace` records what the pump and the controller did, the newest event first; no function reads it.

## Main definitions

* `Pump`, `Controller`, `Conns`, `lookup`.
* `PumpEvent`: the events of the trace.
* `sendCommand`, `recvFromTunnel`, `drainCommands`, `encodeConnections`, `pumpTransfer`.
-/

namespace OsTasks.PortForwarding

/-! ### The state of an endpoint -/

/-- `MAX_CONNECTIONS` of `pump.h`. -/
def maxConnections : ℕ := 256

/-- `struct pump`; the command handler is an argument of the functions that call it. -/
structure Pump where
  sendingTo : ℤ
  currentIndex : ℕ
  cmdQueue : CmdQueue

/-- What an endpoint did. A slot in an event is the slot as it was before.

* `queued s cmd`: `handle_state_changes` queued `cmd` for the connection of `s`.
* `received cmd arg`: a command frame was taken from the tunnel.
* `handled command target stack opened`: `on_command` handled a command; `target` is the first
  connection in the manager's list that had the id of the command, `stack` the free ids before, and
  `opened` tells whether a connection to the service was opened.
* `delivered id tag s bytes`: payload bytes were delivered to the connection of `s`.
* `sent command`: a queued command was appended to the tunnel's output.
* `dropped command`: a queued command was taken from the queue and not sent.
* `encoded s bytes`: a data frame with these bytes of the connection of `s` was appended to the
  tunnel's output. -/
inductive PumpEvent
  | queued (s : Slot) (cmd : UInt8)
  | received (cmd arg : UInt8)
  | handled (command : Command) (target : Option Slot) (stack : List ℤ) (opened : Bool)
  | delivered (id : ℕ) (tag : ℕ) (s : Slot) (bytes : List UInt8)
  | sent (command : Command)
  | dropped (command : Command)
  | encoded (s : Slot) (bytes : List UInt8)

/-- `struct controller`, with the pump and the manager it points to. `freeIds` is `struct id_stack`
with its top first. -/
structure Controller where
  manager : Manager
  pump : Pump
  freeIds : List ℤ
  accepting : Bool
  bufSize : ℕ+
  trace : List PumpEvent := []

/-- The array of connections sorted by id. -/
abbrev Conns := ℕ → Option ℕ

/-- The slot of the object at an address. -/
def findSlot (slots : List Slot) (ref : ℕ) : Option Slot := slots.find? fun s => s.ref == ref

/-- The object that entry `id` of the array points to. -/
def lookup (slots : List Slot) (conns : Conns) (id : ℕ) : Option Slot :=
  (conns id).bind (findSlot slots)

/-- Changes the object at an address. -/
def modifyConn (slots : List Slot) (ref : ℕ) (f : Connection → Connection) : List Slot :=
  slots.map fun s => if s.ref = ref then { s with conn := f s.conn } else s

namespace Controller

def slots (c : Controller) : List Slot := c.manager.slots

def setSlots (c : Controller) (slots : List Slot) : Controller :=
  { c with manager := { c.manager with slots := slots } }

def modify (c : Controller) (ref : ℕ) (f : Connection → Connection) : Controller :=
  c.setSlots (modifyConn c.slots ref f)

def setQueue (c : Controller) (q : CmdQueue) : Controller :=
  { c with pump := { c.pump with cmdQueue := q } }

def setSendingTo (c : Controller) (id : ℤ) : Controller :=
  { c with pump := { c.pump with sendingTo := id } }

def note (c : Controller) (event : PumpEvent) : Controller :=
  { c with trace := event :: c.trace }

end Controller

/-! ### From the tunnel to the connections -/

/-- What the outside gives to one call of `pump_transfer`: the bytes behind the arrays of the
buffers, and the results of the calls with which a connection is opened. -/
structure PumpEnv where
  wild : ℕ → UInt8
  connect : ConnectEnv

/-- `decode` from the tunnel's input to the output of a connection. -/
def decodeTo (env : PumpEnv) (id : ℕ) (tunnel target : Slot) (c : Controller) :
    Bool × Controller :=
  let r := decode env.wild tunnel.conn.inBuf target.conn.outBuf
  let c := c.modify tunnel.ref fun conn => { conn with inBuf := r.2.1 }
  let c := c.modify target.ref fun conn => { conn with outBuf := r.2.2 }
  (r.1, c.note (.delivered id 0 target (r.2.2.contents.drop target.conn.outBuf.length)))

/-- The second half of `recv_from_tunnel`: the frame at the front of the tunnel's input, if enough
of it is there. -/
def nextFrame (handler : Controller → Command → Controller) (env : PumpEnv) (conns : Conns)
    (c : Controller) : Except Fault Controller :=
  match lookup c.slots conns 0 with
  | none => .error .nullDeref
  | some tunnel =>
    let buf := tunnel.conn.inBuf
    let available := bufDataLength buf
    if 3 < available then
      let start := (bufPeek buf 3).getD []
      if start.getD 0 0 ≠ endByte then .error .wrongStart
      else if start.getD 1 0 = 0 then
        let cmd := start.getD 2 0
        if available < 5 then .ok c
        else
          let buf := bufAdvanceReadPtr buf 3
          let arg := (bufPeekByte buf).getD 0
          let c := c.modify tunnel.ref fun conn => { conn with inBuf := buf }
          let c := handler (c.note (.received cmd arg)) ⟨cmd, arg, 0⟩
          .ok (c.modify tunnel.ref fun conn =>
            { conn with inBuf := bufAdvanceReadPtr conn.inBuf 2 })
      else
        let connId := (start.getD 1 0).toNat
        match lookup c.slots conns connId with
        | none => .error .closedConnection
        | some target =>
          let buf := bufAdvanceReadPtr buf 2
          let tunnel := { tunnel with conn := { tunnel.conn with inBuf := buf } }
          let r := decodeTo env connId tunnel target c
          .ok (if r.1 then r.2 else r.2.setSendingTo connId)
    else .ok c

/-- `recv_from_tunnel`. -/
def recvFromTunnel (handler : Controller → Command → Controller) (env : PumpEnv) (conns : Conns)
    (c : Controller) : Except Fault Controller :=
  match lookup c.slots conns 0 with
  | none => .error .nullDeref
  | some tunnel =>
    if bufEmpty tunnel.conn.inBuf then .ok c
    else if c.pump.sendingTo ≠ -1 then
      match lookup c.slots conns c.pump.sendingTo.toNat with
      | none => .error .nullDeref
      | some target =>
        let r := decodeTo env c.pump.sendingTo.toNat tunnel target c
        if r.1 then nextFrame handler env conns (r.2.setSendingTo (-1)) else .ok r.2
    else nextFrame handler env conns c

/-! ### From the queue and the connections to the tunnel -/

/-- `send_command`; it fails when the queue is full. -/
def sendCommand (c : Controller) (command : Command) : Option Controller :=
  (cmdqEnqueue c.pump.cmdQueue command).map c.setQueue

/-- The loop over the command queue, with its length as fuel. The result is `false` when a command
did not fit; that command has left the queue. -/
def drainCommands (conns : Conns) : ℕ → Controller → Bool × Controller
  | 0, c => (true, c)
  | n + 1, c =>
    if cmdqLength c.pump.cmdQueue = 0 then (true, c)
    else
      let r := cmdqDequeue c.pump.cmdQueue
      let c := c.setQueue r.2
      match lookup c.slots conns 0 with
      | none => (false, c)
      | some tunnel =>
        let e := encodeCommand tunnel.conn.outBuf r.1.cmd r.1.arg
        if e.1 then
          let c := c.modify tunnel.ref fun conn => { conn with outBuf := e.2 }
          drainCommands conns n (c.note (.sent r.1))
        else (false, c.note (.dropped r.1))

/-- An `int` stored in a byte. -/
def toByte (i : ℤ) : UInt8 := UInt8.ofNat (i % 256).toNat

/-- The loop over the connections in round-robin order, from the given step on. -/
def encodeConnections (conns : Conns) (index : ℕ) : List ℕ → Controller → Controller
  | [], c => c
  | i :: is, c =>
    let ind := (index + i) % 255 + 1
    match lookup c.slots conns ind, lookup c.slots conns 0 with
    | some s, some tunnel =>
      if !isAlive s.conn.state || !isAlive s.conn.inState then encodeConnections conns index is c
      else
        let r := encode s.conn.inBuf tunnel.conn.outBuf (toByte s.conn.id)
        if r.1 then
          let c := c.modify s.ref fun conn => { conn with inBuf := r.2.1 }
          let c := c.modify tunnel.ref fun conn => { conn with outBuf := r.2.2 }
          let bytes := s.conn.inBuf.contents.take (s.conn.inBuf.length - r.2.1.length)
          let c := if bufEmpty s.conn.inBuf then c else c.note (.encoded s bytes)
          encodeConnections conns index is c
        else { c with pump := { c.pump with currentIndex := ind } }
    | _, _ => encodeConnections conns index is c

/-- `pump_transfer`. -/
def pumpTransfer (handler : Controller → Command → Controller) (env : PumpEnv) (conns : Conns)
    (c : Controller) : Except Fault Controller := do
  let c ← recvFromTunnel handler env conns c
  let r := drainCommands conns (cmdqLength c.pump.cmdQueue) c
  if r.1 then
    .ok (encodeConnections conns r.2.pump.currentIndex (List.range (maxConnections - 1)) r.2)
  else .ok r.2

end OsTasks.PortForwarding
