import OsTasks.PortForwarding.Connection

/-!
# The connection manager

`manager.c`: a manager owns the sockets. `cm_poll` closes what has to be closed, waits for events,
accepts a client, reads from and writes to the sockets, and closes again what these have ended;
`cm_connect` opens a connection to the service.

The operating system is a parameter of every step: what `poll` reports, what each call of `accept`,
`socket`, `connect`, `readv` and `writev` returns. Its rules are part of the model: `poll` reports
nothing for a negative descriptor and otherwise only events that were requested.

Every system call is recorded in `Manager.log`, the newest first, so that a property of the calls
of a run is a property of the log of its last state.

## Main definitions

* `SysCall`, `Manager`.
* `receive`, `transmit`: reading from and writing to one socket.
* `closeSocket`, `closeSockets`, `shrink`.
* `acceptConnection`, `cmAddConnection`, `cmConnect`.
* `cmPoll`, `destroyManager`.
-/

namespace OsTasks.PortForwarding

/-! ### Constants and causes -/

/-- `MAX_CONNECTIONS` of `manager.c`, that is `MAX_DESCRIPTORS - 2`. -/
def managerMaxConnections : ℕ := 1022

/-- The causes `CLOSE_CAUSE_NONE`, `CLOSE_CAUSE_USER` and `CLOSE_CAUSE_ERROR`. -/
inductive CloseCause
  | none
  | user
  | error
  deriving DecidableEq

/-- `CAUSE_NONE`, `CAUSE_EOF` and `CAUSE_ERROR`: how a read or a write ended. -/
inductive RwCause
  | none
  | eof
  | error
  deriving DecidableEq

/-- The ways in which the process ends by itself: it dereferences a null pointer, or it exits
because the peer has broken the protocol. -/
inductive Fault
  | nullDeref
  | wrongStart
  | closedConnection
  deriving DecidableEq

/-- A direction of `shutdown`. -/
inductive Direction
  | rd
  | wr
  deriving DecidableEq

/-! ### System calls and the state -/

/-- The system calls of a manager. A call for a connection carries the slot as it was at the call
and the descriptor that was passed. -/
inductive SysCall
  | opened (ref : ℕ) (fd : ℕ)
  | polled (reported : List (ℕ × PollMask))
  | readv (s : Slot) (fd : ℤ) (cause : RwCause)
  | writev (s : Slot) (fd : ℤ) (cause : RwCause)
  | shutdown (s : Slot) (fd : ℤ) (how : Direction)
  | close (s : Slot) (fd : ℤ)
  | closeUnused (ref : ℕ) (fd : ℤ)
  | closeListener (fd : ℤ)
  | closePipe (fd : ℤ)

/-- `struct connection_manager`. The slots are the first `connections_count` entries of the
arrays; `nextRef` is the address that `malloc` returns next, and `log` records the calls made. -/
structure Manager where
  bufSize : ℕ+
  slots : List Slot
  acceptor : ℤ
  pipeRead : ℤ
  pipeWrite : ℤ
  nextRef : ℕ := 0
  log : List SysCall := []

/-- A loop over the connections that handles each slot by itself. -/
def eachSlot (f : Slot → Slot × List SysCall) (m : Manager) : Manager :=
  { m with
    slots := m.slots.map fun s => (f s).1
    log := (m.slots.flatMap fun s => (f s).2).reverse ++ m.log }

/-! ### Reading and writing -/

/-- What a failed or finished call of `readv` or `writev` means. -/
def getRwErrorCause (res : ℤ) (err : Errno) : RwCause :=
  if res = -1 then
    match err with
    | .eagain | .eintr => .none
    | .econnreset | .epipe => .eof
    | .other => .error
  else if res = 0 then .eof
  else .none

/-- `errno` after a call; it is looked at after a failure only. -/
def ReadResult.errno : ReadResult → Errno
  | .error e => e
  | .bytes _ => .other

def WriteResult.errno : WriteResult → Errno
  | .error e => e
  | .taken _ => .other

/-- The bit `CS_EOF` is set when a call has ended its direction. -/
def markEof (cause : RwCause) (state : ConnState) : ConnState :=
  match cause with
  | .none => state
  | .eof | .error => { state with eof := true }

/-- After a read, `POLLIN` is requested as long as there is room and the direction lives. -/
def rearmIn (fd : Pollfd) (conn : Connection) : Pollfd :=
  if bufFull conn.inBuf || !isAlive conn.inState then clearPollfdFlags fd { pollin := true }
  else setPollfdFlags fd { pollin := true }

/-- `receive`, when the socket answers a read by `r`. -/
def receive (r : ReadResult) (s : Slot) : Slot × List SysCall :=
  if !isAlive s.conn.inState || isStopped s.conn.state then (s, [])
  else if s.pfd.revents.pollin && !bufFull s.conn.inBuf then
    let (res, _, buf) := bufRead r s.conn.inBuf
    let cause := getRwErrorCause res r.errno
    let conn := { s.conn with inBuf := buf, inState := markEof cause s.conn.inState }
    ({ s with conn := conn, pfd := rearmIn s.pfd conn }, [.readv s s.pfd.fd cause])
  else ({ s with pfd := rearmIn s.pfd s.conn }, [])

/-- After a write, `POLLOUT` is requested as long as there are bytes and the direction lives. -/
def rearmOut (fd : Pollfd) (conn : Connection) : Pollfd :=
  if bufEmpty conn.outBuf || !isAlive conn.outState then clearPollfdFlags fd { pollout := true }
  else setPollfdFlags fd { pollout := true }

/-- `transmit`, when the socket answers a write by `r`. -/
def transmit (r : WriteResult) (s : Slot) : Slot × List SysCall :=
  if !isAlive s.conn.outState || isStopped s.conn.state then (s, [])
  else if s.pfd.revents.pollout && !bufEmpty s.conn.outBuf then
    let (res, _, buf) := bufWrite r s.conn.outBuf
    let cause := getRwErrorCause res r.errno
    let conn := { s.conn with outBuf := buf, outState := markEof cause s.conn.outState }
    ({ s with conn := conn, pfd := rearmOut s.pfd conn }, [.writev s s.pfd.fd cause])
  else ({ s with pfd := rearmOut s.pfd s.conn }, [])

/-- What the sockets answer to the calls of one round, per connection. -/
structure SocketEnv where
  read : ℕ → ReadResult
  write : ℕ → WriteResult

/-- The body of the transfer loop of `cm_poll`. -/
def serve (env : SocketEnv) (s : Slot) : Slot × List SysCall :=
  if isAlive s.conn.state then
    let received := receive (env.read s.ref) s
    let sent := transmit (env.write s.ref) received.1
    (sent.1, received.2 ++ sent.2)
  else (s, [])

/-! ### Closing -/

/-- `try_shutdown`. -/
def tryShutdown (s : Slot) (fd : ℤ) (how : Direction) : SysCall :=
  .shutdown s (if fd < 0 then complement fd else fd) how

/-- Shutting down one direction: the bit `CS_CLOSED` is set if the direction has ended. -/
def closeDirection (state : ConnState) : ConnState :=
  if shouldClose state && !isClosed state then { state with closed := true } else state

/-- A slot whose socket has been closed. -/
def Slot.shut (s : Slot) : Slot :=
  { s with
    pfd := { s.pfd with fd := -1 }
    conn :=
      { s.conn with
        state := { s.conn.state with closed := true }
        inState := { s.conn.inState with closed := true }
        outState := { s.conn.outState with closed := true } } }

/-- A slot whose ended directions have been shut down. -/
def Slot.shutDirections (s : Slot) : Slot :=
  { s with
    conn :=
      { s.conn with
        inState := closeDirection s.conn.inState
        outState := closeDirection s.conn.outState } }

/-- The body of the loop of `close_sockets`. -/
def closeSocket (s : Slot) : Slot × List SysCall :=
  if isClosed s.conn.state then (s, [])
  else
    let fd := cmGetConnectionFd s.pfd
    if shouldCloseSocket s.conn then (s.shut, [.close s fd])
    else
      let rd := shouldClose s.conn.inState && !isClosed s.conn.inState
      let wr := shouldClose s.conn.outState && !isClosed s.conn.outState
      (s.shutDirections,
        (if rd then [tryShutdown s fd .rd] else []) ++ if wr then [tryShutdown s fd .wr] else [])

def closeSockets (m : Manager) : Manager := eachSlot closeSocket m

/-- `cm->connections[i] = cm->connections[j]`, of the slots `i` and `j`. -/
def Slot.setConnection (s t : Slot) : Slot :=
  { s with ref := t.ref, conn := t.conn, own := t.own, inc := t.inc }

/-- `cm_conn_fd(cm, i) = cm_conn_fd(cm, j)`, of the slots `i` and `j`. -/
def Slot.setFd (s t : Slot) : Slot := { s with pfd := t.pfd }

/-- The loop of `shrink` from `j` on, with the number of the slots that are left as fuel: the
result is `i` at its end, and the slots. -/
def shrinkLoop : ℕ → ℕ → ℕ → List Slot → ℕ × List Slot
  | 0, _, i, slots => (i, slots)
  | n + 1, j, i, slots =>
    match slots[j]? with
    | none => (i, slots)
    | some s =>
      if shouldDelete s.conn.state then shrinkLoop n (j + 1) i slots
      else
        let slots :=
          if i = j then slots
          else (slots.modify i fun t => t.setConnection s).modify i fun t => t.setFd s
        shrinkLoop n (j + 1) (i + 1) slots

/-- Removes the connections that are deleted and closed. -/
def shrink (m : Manager) : Manager :=
  let r := shrinkLoop m.slots.length 0 0 m.slots
  { m with slots := r.2.take r.1 }

/-! ### New connections -/

/-- `cm_add_connection`; the source returns `-1` when the table is full. -/
def cmAddConnection (m : Manager) (conn : Connection) (fd : ℤ) (own inc : ℕ) : Option Manager :=
  if m.slots.length = managerMaxConnections then none
  else
    let pfd : Pollfd := { fd := fd, events := { pollin := true }, revents := {} }
    some
      { m with
        slots := m.slots ++ [{ ref := m.nextRef, conn := conn, pfd := pfd, own := own, inc := inc }]
        nextRef := m.nextRef + 1 }

/-- What `accept` returns, and the allocations after it. -/
structure AcceptEnv where
  result : Except Errno ℕ
  malloc : Malloc

/-- `accept_connection` after `accept` has returned `socket`. The label `abort` prints the address
of the connection, whether there is one or not. -/
def acceptSocket (malloc : Malloc) (m : Manager) (socket : ℤ) (own : ℕ) : Except Fault Manager :=
  match makeConnection malloc m.bufSize m.bufSize (-1) with
  | none => .error .nullDeref
  | some c =>
    match
      cmAddConnection m { c with state := { c.state with new := true } } socket own m.nextRef
    with
    | none => .ok { m with log := .closeUnused m.nextRef socket :: m.log }
    | some m' => .ok m'

/-- `accept_connection`. An error other than `EINTR` and `EAGAIN` is printed, and the descriptor
`-1` is used. -/
def acceptConnection (env : AcceptEnv) (m : Manager) : Except Fault Manager :=
  if m.slots.length = managerMaxConnections then .ok m
  else
    match env.result with
    | .ok fd => acceptSocket env.malloc { m with log := .opened m.nextRef fd :: m.log } fd fd
    | .error e => if e = .eintr ∨ e = .eagain then .ok m else acceptSocket env.malloc m (-1) 0

/-- What `malloc`, `socket` and `connect` return to `cm_connect`. -/
structure ConnectEnv where
  malloc : Malloc
  socket : Option ℕ
  connect : Bool

/-- `cm_connect`: whether the connection was made, and the manager after it. -/
def cmConnect (env : ConnectEnv) (m : Manager) (inBufSize outBufSize : ℕ+) (id : ℤ) (inc : ℕ) :
    Bool × Manager :=
  if m.slots.length = managerMaxConnections then (false, m)
  else
    match makeConnection env.malloc inBufSize outBufSize id with
    | none => (false, m)
    | some c =>
      match env.socket with
      | none => (false, m)
      | some s =>
        let m := { m with log := .opened m.nextRef s :: m.log }
        if env.connect then
          match cmAddConnection m c s s inc with
          | none => (true, m)
          | some m' => (true, m')
        else
          (false,
            { m with nextRef := m.nextRef + 1, log := .closeUnused m.nextRef s :: m.log })

/-! ### Polling -/

/-- What the shutdown pipe holds: nothing, an error on reading it, its end, or the byte
`CLOSE_CAUSE_USER` that `cm_shutdown` writes. -/
inductive PipeEvent
  | quiet
  | failed
  | ended
  | shutdown
  deriving DecidableEq

/-- What the operating system answers to one call of `cm_poll`. `ready` is the final answer of
`poll`, the retries after `EINTR` and `EAGAIN` left out: an error, or the events that are ready on
each connection's descriptor. -/
structure PollEnv where
  ready : Option (ℕ → PollMask)
  pipe : PipeEvent
  client : Bool
  accept : AcceptEnv
  sockets : SocketEnv

/-- Before waiting, `POLLOUT` is requested for every non-empty output of a living direction; for
the others a warning is printed. -/
def armOutput (s : Slot) : Slot :=
  if bufEmpty s.conn.outBuf then s
  else if isAlive s.conn.outState then { s with pfd := setPollfdFlags s.pfd { pollout := true } }
  else s

/-- What `poll` reports for a descriptor on which the events `ready` could be reported. -/
def pollRevents (ready : PollMask) (fd : Pollfd) : PollMask :=
  if fd.fd < 0 then {}
  else ⟨ready.pollin && fd.events.pollin, ready.pollout && fd.events.pollout⟩

/-- `poll` fills in `revents`. -/
def pollSlot (ready : ℕ → PollMask) (s : Slot) : Slot :=
  { s with pfd := { s.pfd with revents := pollRevents (ready s.ref) s.pfd } }

/-- The part of `cm_poll` before the call of `poll`. -/
def beforePoll (m : Manager) : Manager :=
  let m := shrink (closeSockets m)
  { m with slots := m.slots.map armOutput }

/-- The call of `poll`. -/
def pollAll (ready : ℕ → PollMask) (m : Manager) : Manager :=
  let slots := m.slots.map (pollSlot ready)
  { m with
    slots := slots
    log := .polled (slots.map fun s => (s.ref, s.pfd.revents)) :: m.log }

/-- The transfer loop over the connections that were there before `accept_connection`. -/
def serveFirst (env : SocketEnv) (count : ℕ) (m : Manager) : Manager :=
  let old := eachSlot (serve env) { m with slots := m.slots.take count }
  { old with slots := old.slots ++ m.slots.drop count }

/-- `cm_poll`. -/
def cmPoll (env : PollEnv) (m : Manager) : Except Fault (Manager × CloseCause) :=
  let m := beforePoll m
  let connectionsCount := m.slots.length
  match env.ready with
  | none => .ok (m, .error)
  | some ready =>
    let m := pollAll ready m
    if env.pipe = .shutdown then .ok (m, .user)
    else do
      let m ← if env.client && decide (0 ≤ m.acceptor) then acceptConnection env.accept m else .ok m
      .ok (shrink (closeSockets (serveFirst env.sockets connectionsCount m)), .none)

/-! ### Start and end -/

/-- `init_accepting_manager` and `init_manager`, after their system calls have succeeded: a manager
listens on `acceptor`, or has no listening socket if that is `-1`. -/
def initManager (bufSize : ℕ+) (acceptor : ℤ) (pipe : ℕ × ℕ) : Manager where
  bufSize := bufSize
  slots := []
  acceptor := acceptor
  pipeRead := pipe.1
  pipeWrite := pipe.2

/-- The calls of `close` on one connection in `destroy_manager`. -/
def destroySlot (s : Slot) : List SysCall :=
  let fd := cmGetConnectionFd s.pfd
  if isClosed s.conn.state then [] else [.close s fd]

/-- The calls made up to the end of `destroy_manager`, the newest first. -/
def destroyManager (m : Manager) : List SysCall :=
  let listener := if m.acceptor = -1 then [] else [SysCall.closeListener m.acceptor]
  (listener ++ [SysCall.closePipe m.pipeRead, SysCall.closePipe m.pipeWrite] ++
    m.slots.flatMap destroySlot).reverse ++ m.log

end OsTasks.PortForwarding
