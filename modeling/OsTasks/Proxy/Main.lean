import OsTasks.Proxy.Stream

/-!
# The main loop of the proxy

Slot `i` of the proxy is made of `clients[i]` and of the two `struct pollfd`s `fds[1 + 2 * i]` and
`fds[2 + 2 * i]`, which hold the descriptor of the client and the one of its connection to the
target, or their complements. A round polls, accepts at most one connection, serves the slots there
were, and compacts the arrays in place. Clients live on the heap; a null pointer or one to a freed
client that is dereferenced ends the model in `none`.

The addresses that `malloc` returns are numbered in order, and are not used twice. What is printed,
and the address of the peer, which is only printed, are left out.

## Main definitions

* `Dir`, `Client`, `Event`, `State`: the state, with the trace of the calls.
* `copySlot`, `addSlot`, `clearSlot`, `shrinkSlots`: the slots.
* `makeClient`, `addClient`, `disconnectClient`, `acceptConnection`: the clients.
* `serveDirection`, `serveSlot`, `serveSlots`: the transfer loop.
* `beforePoll`, `round`, `terminate`, `Reach`: the main loop.
-/

namespace OsTasks.Proxy

open PortForwarding (Pollfd PollMask ReadResult WriteResult pollRevents)

/-! ### The state -/

/-- The two directions of a client. -/
inductive Dir
  | srcDst
  | dstSrc
  deriving DecidableEq

/-- `struct client`. -/
structure Client where
  srcFd : ℕ
  dstFd : ℕ
  srcDstActive : Bool
  dstSrcActive : Bool
  srcDstBuf : RoundBuffer
  dstSrcBuf : RoundBuffer

namespace Client

def active (c : Client) : Dir → Bool
  | .srcDst => c.srcDstActive
  | .dstSrc => c.dstSrcActive

def buf (c : Client) : Dir → RoundBuffer
  | .srcDst => c.srcDstBuf
  | .dstSrc => c.dstSrcBuf

/-- A client after a transfer in one direction, which has ended or not. -/
def transferred (c : Client) (dir : Dir) (ended : Bool) (buf : RoundBuffer) : Client :=
  match dir with
  | .srcDst => { c with srcDstBuf := buf, srcDstActive := if ended then false else c.srcDstActive }
  | .dstSrc => { c with dstSrcBuf := buf, dstSrcActive := if ended then false else c.dstSrcActive }

end Client

/-- What the proxy does with descriptors. A call of `transfer` carries the address of the client
and the direction. -/
inductive Event
  | connected (ref : ℕ) (srcFd dstFd : ℕ)
  | call (ref : ℕ) (dir : Dir) (c : IoCall)
  | disconnected (ref : ℕ) (srcFd dstFd : ℕ)
  | closeUnused (fd : ℕ)

/-- The global variables and the heap. The newest event comes first in the trace. -/
structure State where
  clientsCount : ℕ
  clients : ℕ → Option ℕ
  fds : ℕ → Pollfd
  heap : ℕ → Option Client
  nextRef : ℕ
  trace : List Event

/-- The number of slots. -/
def maxClients : ℕ := 510

/-- The index in `fds` of the client of a slot. -/
def srcIndex (slot : ℕ) : ℕ := 1 + 2 * slot + 0

/-- The index in `fds` of the target of a slot. -/
def dstIndex (slot : ℕ) : ℕ := 1 + 2 * slot + 1

/-! ### Slots -/

def copySlot (indFrom indTo : ℕ) (s : State) : State :=
  if indTo = indFrom then s
  else
    let fds := Function.update s.fds (srcIndex indTo) (s.fds (srcIndex indFrom))
    { s with
      clients := Function.update s.clients indTo (s.clients indFrom)
      fds := Function.update fds (dstIndex indTo) (fds (dstIndex indFrom)) }

def canAddSlot (s : State) : Bool := s.clientsCount < maxClients

/-- A `struct pollfd` of a new slot; `revents` is what was left there. -/
def armIn (fd : ℕ) (old : Pollfd) : Pollfd := { old with fd := fd, events := { pollin := true } }

/-- `add_slot`, for the client at `ref`. -/
def addSlot (ref : ℕ) (client : Client) (s : State) : ℕ × State :=
  let slot := s.clientsCount
  let fds := Function.update s.fds (srcIndex slot) (armIn client.srcFd (s.fds (srcIndex slot)))
  (slot,
    { s with
      clientsCount := s.clientsCount + 1
      clients := Function.update s.clients slot (some ref)
      fds := Function.update fds (dstIndex slot) (armIn client.dstFd (fds (dstIndex slot))) })

def clearSlot (slot : ℕ) (s : State) : State :=
  { s with clients := Function.update s.clients slot none }

/-- The loop of `shrink_slots` from `j` on, with the number of slots that are left as fuel: `i` at
its end, and the state. -/
def shrinkLoop : ℕ → ℕ → ℕ → State → ℕ × State
  | 0, _, i, s => (i, s)
  | n + 1, j, i, s =>
    if (s.clients j).isSome then shrinkLoop n (j + 1) (i + 1) (copySlot j i s)
    else shrinkLoop n (j + 1) i s

def shrinkSlots (s : State) : State :=
  let r := shrinkLoop s.clientsCount 0 0 s
  { r.2 with clientsCount := r.1 }

/-! ### Clients -/

/-- `make_client`, when `malloc` returns the given arrays for the two buffers; `none` stands for an
allocation that fails. (When the second buffer is not allocated, the source destroys the first one
by way of the client it has just freed.) -/
def makeClient (malloc : Option ((ℕ → UInt8) × (ℕ → UInt8))) (srcFd dstFd : ℕ) : Option Client :=
  malloc.map fun mem =>
    { srcFd := srcFd
      dstFd := dstFd
      srcDstActive := true
      dstSrcActive := true
      srcDstBuf := rbInit mem.1 bufferSize
      dstSrcBuf := rbInit mem.2 bufferSize }

/-- `add_client`: the slot, `-2` when there is none, or `-1` when no memory is left. -/
def addClient (malloc : Option ((ℕ → UInt8) × (ℕ → UInt8))) (srcFd dstFd : ℕ) (s : State) :
    ℤ × State :=
  if !canAddSlot s then (-2, s)
  else
    match makeClient malloc srcFd dstFd with
    | none => (-1, s)
    | some c =>
      let ref := s.nextRef
      let (slot, s) := addSlot ref c
        { s with
          heap := Function.update s.heap ref (some c)
          nextRef := ref + 1
          trace := .connected ref srcFd dstFd :: s.trace }
      (slot, s)

/-- `disconnect_client`. -/
def disconnectClient (slot : ℕ) (s : State) : Option State := do
  let ref ← s.clients slot
  let c ← s.heap ref
  let s := clearSlot slot s
  return { s with
    heap := Function.update s.heap ref none
    trace := .disconnected ref c.srcFd c.dstFd :: s.trace }

/-- What the system answers to `accept_connection`: the descriptors of the new connection and of
the socket to the target, whether `connect` and closing that socket succeed, and memory. -/
structure AcceptEnv where
  accept : Option ℕ
  socket : Option ℕ
  connect : Bool
  close : Bool
  malloc : Option ((ℕ → UInt8) × (ℕ → UInt8))

/-- The label `close_incoming_socket`. -/
def closeIncomingSocket (incoming : ℕ) (s : State) : State :=
  { s with trace := .closeUnused incoming :: s.trace }

/-- The label `close_both_sockets`. -/
def closeBothSockets (env : AcceptEnv) (incoming outcoming : ℕ) (s : State) : State :=
  let s := { s with trace := .closeUnused outcoming :: s.trace }
  if env.close then closeIncomingSocket incoming s else s

/-- `accept_connection`. -/
def acceptConnection (env : AcceptEnv) (s : State) : State :=
  match env.accept with
  | none => s
  | some incoming =>
    if !canAddSlot s then closeIncomingSocket incoming s
    else
      match env.socket with
      | none => closeIncomingSocket incoming s
      | some outcoming =>
        if !env.connect then closeBothSockets env incoming outcoming s
        else
          let (slot, s) := addClient env.malloc incoming outcoming s
          if slot = -1 then closeBothSockets env incoming outcoming s else s

/-! ### The transfer loop -/

/-- The index in `fds` of the socket that a direction reads. -/
def Dir.inIndex : Dir → ℕ → ℕ
  | .srcDst => srcIndex
  | .dstSrc => dstIndex

/-- The index in `fds` of the socket that a direction writes. -/
def Dir.outIndex : Dir → ℕ → ℕ
  | .srcDst => dstIndex
  | .dstSrc => srcIndex

/-- What the sockets of the clients answer in a round. -/
structure SocketEnv where
  read : ℕ → Dir → ReadResult
  write : ℕ → Dir → WriteResult

/-- The part of the transfer loop about one direction. -/
def serveDirection (env : SocketEnv) (dir : Dir) (slot : ℕ) (s : State) : Option State := do
  let ref ← s.clients slot
  let client ← s.heap ref
  if client.active dir then
    let t := transfer (env.read ref dir) (env.write ref dir) (s.fds (dir.inIndex slot))
      (s.fds (dir.outIndex slot)) (client.buf dir)
    let fds := Function.update s.fds (dir.inIndex slot) t.inFd
    return { s with
      fds := Function.update fds (dir.outIndex slot) t.outFd
      heap := Function.update s.heap ref (some (client.transferred dir t.ended t.buf))
      trace := (t.calls.map (Event.call ref dir)).reverse ++ s.trace }
  else return s

/-- The body of the transfer loop. -/
def serveSlot (env : SocketEnv) (slot : ℕ) (s : State) : Option State := do
  let s ← serveDirection env .srcDst slot s
  let s ← serveDirection env .dstSrc slot s
  let ref ← s.clients slot
  let client ← s.heap ref
  if !client.srcDstActive && !client.dstSrcActive then disconnectClient slot s else return s

/-- The transfer loop from slot `i` on, with the number of slots that are left as fuel. -/
def serveSlots (env : SocketEnv) : ℕ → ℕ → State → Option State
  | 0, _, s => some s
  | n + 1, i, s => do
    let s ← serveSlot env i s
    serveSlots env n (i + 1) s

/-! ### The main loop -/

/-- The state in which `main` calls `poll`. -/
def beforePoll (s : State) : State :=
  let events : PollMask := if s.clientsCount < maxClients then { pollin := true } else {}
  { s with fds := Function.update s.fds 0 { s.fds 0 with events := events } }

/-- `poll` fills in `revents` of the first `1 + 2 * clients_count` entries. -/
def poll (ready : ℕ → PollMask) (s : State) : State :=
  { s with
    fds := fun k =>
      if k < 1 + 2 * s.clientsCount then
        { s.fds k with revents := pollRevents (ready k) (s.fds k) }
      else s.fds k }

/-- What the system does in a round. -/
structure RoundEnv where
  ready : ℕ → PollMask
  accept : AcceptEnv
  sockets : SocketEnv

/-- The body of the main loop when `poll` returns. -/
def round (env : RoundEnv) (s : State) : Option State := do
  let s := poll env.ready (beforePoll s)
  let savedClientsCount := s.clientsCount
  let s := if (s.fds 0).revents.pollin then acceptConnection env.accept s else s
  let s ← serveSlots env.sockets savedClientsCount 0 s
  return shrinkSlots s

/-- The last loop of `main` from slot `i` on, with the number of slots that are left as fuel. -/
def disconnectSlots : ℕ → ℕ → State → Option State
  | 0, _, s => some s
  | n + 1, i, s => do
    let s ← disconnectClient i s
    disconnectSlots n (i + 1) s

/-- What `main` does after the main loop. -/
def terminate (s : State) : Option State := disconnectSlots s.clientsCount 0 s

/-- The state in front of the main loop. -/
def start (listeningSocket : ℕ) : State where
  clientsCount := 0
  clients := fun _ => none
  fds := fun k =>
    { fd := if k = 0 then listeningSocket else 0, events := {}, revents := {} }
  heap := fun _ => none
  nextRef := 0
  trace := []

/-- The states in which the main loop comes around: at its start, after `poll` has been interrupted,
or after a round. -/
inductive Reach : State → Prop
  | start (listeningSocket : ℕ) : Reach (start listeningSocket)
  | interrupted {s : State} (h : Reach s) : Reach (beforePoll s)
  | round {s s' : State} (h : Reach s) (env : RoundEnv) (hs : round env s = some s') : Reach s'

/-- Some rounds. -/
def rounds : List RoundEnv → State → Option State
  | [], s => some s
  | env :: envs, s => do
    let s ← round env s
    rounds envs s

theorem Reach.rounds {s s' : State} (h : Reach s) {envs : List RoundEnv}
    (hs : rounds envs s = some s') : Reach s' := by
  induction envs generalizing s with
  | nil => exact Option.some.inj hs ▸ h
  | cons env envs ih =>
    obtain ⟨s₁, hround, hrest⟩ := Option.bind_eq_some_iff.mp hs
    exact ih (h.round env hround) hrest

end OsTasks.Proxy
