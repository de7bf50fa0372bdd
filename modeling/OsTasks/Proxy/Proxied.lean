import OsTasks.Proxy.Main

/-!
# The life of a proxied client

A client together with the two `struct pollfd`s of its slot and the events about it is an object
of its own: what a round does to it depends on nothing else. `Life` holds of the objects that rounds
make of a new one, whatever `poll` reports and the sockets answer. What is true of every client in
every run is proved by induction on its life.

## Main definitions

* `Event.ref?`, `about`: the events about one client.
* `Proxied`, `Proxied.direction`, `Proxied.serve`: an object, and what a round does to it.
* `Life`: the objects that rounds make of a new client, as long as one direction is active.
* `Ended`: the log of a client that has been disconnected.
-/

namespace OsTasks.Proxy

open PortForwarding (Pollfd PollMask pollRevents)

/-! ### The events about one client -/

/-- The client that an event is about. -/
def Event.ref? : Event → Option ℕ
  | .connected ref _ _ | .call ref _ _ | .disconnected ref _ _ => some ref
  | .closeUnused _ => none

/-- The events of a trace about one client. -/
def about (ref : ℕ) (trace : List Event) : List Event :=
  trace.filter fun e => e.ref? = some ref

theorem about_append (ref : ℕ) (l₁ l₂ : List Event) :
    about ref (l₁ ++ l₂) = about ref l₁ ++ about ref l₂ := List.filter_append ..

theorem about_of_forall {ref : ℕ} {l : List Event} (h : ∀ e ∈ l, e.ref? = some ref) :
    about ref l = l :=
  List.filter_eq_self.mpr fun e he => decide_eq_true (h e he)

theorem about_of_forall_ne {ref : ℕ} {l : List Event} (h : ∀ e ∈ l, e.ref? ≠ some ref) :
    about ref l = [] :=
  List.filter_eq_nil_iff.mpr fun e he => by simpa using h e he

/-! ### Objects -/

/-- A client at an address, its `struct pollfd`s, and the events about it, the newest first. -/
structure Proxied where
  ref : ℕ
  client : Client
  src : Pollfd
  dst : Pollfd
  log : List Event

namespace Proxied

/-- The `struct pollfd` of the socket that a direction reads. -/
def inFd (o : Proxied) : Dir → Pollfd
  | .srcDst => o.src
  | .dstSrc => o.dst

/-- The `struct pollfd` of the socket that a direction writes. -/
def outFd (o : Proxied) : Dir → Pollfd
  | .srcDst => o.dst
  | .dstSrc => o.src

/-- The object after a transfer in one direction. -/
def after (o : Proxied) (dir : Dir) (t : Transferred) : Proxied where
  ref := o.ref
  client := o.client.transferred dir t.ended t.buf
  src :=
    match dir with
    | .srcDst => t.inFd
    | .dstSrc => t.outFd
  dst :=
    match dir with
    | .srcDst => t.outFd
    | .dstSrc => t.inFd
  log := (t.calls.map (Event.call o.ref dir)).reverse ++ o.log

/-- The transfer in one direction. -/
def transferOf (env : SocketEnv) (dir : Dir) (o : Proxied) : Transferred :=
  transfer (env.read o.ref dir) (env.write o.ref dir) (o.inFd dir) (o.outFd dir)
    (o.client.buf dir)

/-- What serving one direction does. -/
def direction (env : SocketEnv) (dir : Dir) (o : Proxied) : Proxied :=
  if o.client.active dir then o.after dir (o.transferOf env dir) else o

/-- What `poll` does. -/
def polled (src dst : PollMask) (o : Proxied) : Proxied :=
  { o with
    src := { o.src with revents := pollRevents src o.src }
    dst := { o.dst with revents := pollRevents dst o.dst } }

/-- What the transfer loop does. -/
def serve (env : SocketEnv) (o : Proxied) : Proxied :=
  (o.direction env .srcDst).direction env .dstSrc

/-- Both directions have ended. -/
def finished (o : Proxied) : Bool := !o.client.srcDstActive && !o.client.dstSrcActive

/-- The log after `disconnect_client`. -/
def disconnectedLog (o : Proxied) : List Event :=
  .disconnected o.ref o.client.srcFd o.client.dstFd :: o.log

end Proxied

/-- The object of a new client. -/
def newProxied (ref : ℕ) (mem : (ℕ → UInt8) × (ℕ → UInt8)) (srcFd dstFd : ℕ)
    (oldSrc oldDst : Pollfd) : Proxied where
  ref := ref
  client :=
    { srcFd := srcFd
      dstFd := dstFd
      srcDstActive := true
      dstSrcActive := true
      srcDstBuf := rbInit mem.1 bufferSize
      dstSrcBuf := rbInit mem.2 bufferSize }
  src := armIn srcFd oldSrc
  dst := armIn dstFd oldDst
  log := [.connected ref srcFd dstFd]

/-- What rounds make of a new client, as long as it is not disconnected. -/
inductive Life : Proxied → Prop
  | new (ref : ℕ) (mem : (ℕ → UInt8) × (ℕ → UInt8)) (srcFd dstFd : ℕ) (oldSrc oldDst : Pollfd) :
      Life (newProxied ref mem srcFd dstFd oldSrc oldDst)
  | round {o : Proxied} (h : Life o) (src dst : PollMask) (env : SocketEnv)
      (hactive : ((o.polled src dst).serve env).finished = false) :
      Life ((o.polled src dst).serve env)

/-- The log of a client that a round has disconnected. -/
def Ended (log : List Event) : Prop :=
  ∃ o, Life o ∧ ∃ src dst env, ((o.polled src dst).serve env).finished = true ∧
    log = ((o.polled src dst).serve env).disconnectedLog

end OsTasks.Proxy
