import Mathlib.Tactic.Common
import OsTasks.PortForwarding.RoundBuffer

/-!
# Connections and their slots

`manager.h` and the first part of `manager.c`: the status bytes of a connection, the predicates on
them, and the pair of a connection with its `struct pollfd`. A connection object is known by the
address `ref` that `malloc` gave it; the manager's arrays `connections` and `fds` are one list of
slots, slot `i` holding `connections[i]` and `fds[2 + i]`.

Two fields of a slot are not read by any function of the program: `own`, the descriptor with which
the connection was added, and `inc`, the accepted client connection it serves.

## Main definitions

* `ConnState`, `isAlive`, `isStopped`, `isClosed`, `shouldClose`, `shouldDelete`.
* `Connection`, `shouldCloseSocket`, `makeConnection`.
* `Pollfd`, `clearPollfdFlags`, `setPollfdFlags`, `cmGetConnectionFd`.
* `Slot`.
-/

namespace OsTasks.PortForwarding

/-! ### Status bytes -/

/-- A status byte: the bits `CS_NEW`, `CS_EOF`, `CS_CLOSED`, `CS_DELETE` and `CS_STOPPED`. -/
structure ConnState where
  new : Bool := false
  eof : Bool := false
  closed : Bool := false
  delete : Bool := false
  stopped : Bool := false
  deriving DecidableEq

def isAlive (state : ConnState) : Bool := !(state.eof || state.closed || state.delete)

def isStopped (state : ConnState) : Bool := state.stopped

def isClosed (state : ConnState) : Bool := state.closed

def shouldClose (state : ConnState) : Bool := state.eof || state.delete

def shouldDelete (state : ConnState) : Bool := state.delete && state.closed

@[simp] theorem isAlive_iff (state : ConnState) :
    isAlive state = true ↔ state.eof = false ∧ state.closed = false ∧ state.delete = false := by
  simp [isAlive, and_assoc]

@[simp] theorem shouldClose_iff (state : ConnState) :
    shouldClose state = true ↔ state.eof = true ∨ state.delete = true := by
  simp [shouldClose]

@[simp] theorem shouldDelete_iff (state : ConnState) :
    shouldDelete state = true ↔ state.delete = true ∧ state.closed = true := by
  simp [shouldDelete]

/-! ### Connections -/

/-- `struct connection`, without the address, which is only printed. -/
structure Connection where
  id : ℤ
  state : ConnState
  inState : ConnState
  outState : ConnState
  inBuf : RoundBuffer
  outBuf : RoundBuffer

def shouldCloseSocket (c : Connection) : Bool :=
  shouldClose c.state || (!isAlive c.inState && !isAlive c.outState)

/-- The results of the allocations of `make_connection`: whether all of them succeed, and the
arrays that the two buffers get. -/
structure Malloc where
  ok : Bool
  inMem : ℕ → UInt8
  outMem : ℕ → UInt8

/-- A connection with two empty buffers and no status bit set. -/
def makeConnection (malloc : Malloc) (inBufSize outBufSize : ℕ+) (id : ℤ) : Option Connection :=
  if malloc.ok then
    some
      { id := id
        state := {}
        inState := {}
        outState := {}
        inBuf := bufCreate malloc.inMem inBufSize
        outBuf := bufCreate malloc.outMem outBufSize }
  else none

/-! ### Poll descriptors -/

/-- The bits `POLLIN` and `POLLOUT` of `events` and `revents`. The error bits that `poll` may
report besides are tested nowhere. -/
structure PollMask where
  pollin : Bool := false
  pollout : Bool := false
  deriving DecidableEq

/-- `struct pollfd`. -/
structure Pollfd where
  fd : ℤ
  events : PollMask
  revents : PollMask
  deriving DecidableEq

/-- The bitwise complement of a descriptor; `poll` ignores negative descriptors. -/
def complement (fd : ℤ) : ℤ := -fd - 1

@[simp] theorem complement_complement (fd : ℤ) : complement (complement fd) = fd := by
  unfold complement
  omega

theorem complement_natCast_neg (own : ℕ) : complement own < 0 := by
  unfold complement
  omega

/-- Clears bits of `events`, and parks the descriptor when none is left. -/
def clearPollfdFlags (fd : Pollfd) (mask : PollMask) : Pollfd :=
  let events : PollMask := ⟨fd.events.pollin && !mask.pollin, fd.events.pollout && !mask.pollout⟩
  if events = {} ∧ 0 ≤ fd.fd then { fd with events := events, fd := complement fd.fd }
  else { fd with events := events }

@[simp] theorem revents_clearPollfdFlags (fd : Pollfd) (mask : PollMask) :
    (clearPollfdFlags fd mask).revents = fd.revents := by
  unfold clearPollfdFlags
  dsimp only
  split_ifs <;> rfl

@[simp] theorem events_clearPollfdFlags (fd : Pollfd) (mask : PollMask) :
    (clearPollfdFlags fd mask).events =
      ⟨fd.events.pollin && !mask.pollin, fd.events.pollout && !mask.pollout⟩ := by
  unfold clearPollfdFlags
  dsimp only
  split_ifs <;> rfl

/-- Sets bits of `events`, and makes a parked descriptor visible to `poll` again. -/
def setPollfdFlags (fd : Pollfd) (mask : PollMask) : Pollfd :=
  if mask = {} then fd
  else
    { fd with
      fd := if fd.fd < 0 then complement fd.fd else fd.fd
      events := ⟨fd.events.pollin || mask.pollin, fd.events.pollout || mask.pollout⟩ }

@[simp] theorem revents_setPollfdFlags (fd : Pollfd) (mask : PollMask) :
    (setPollfdFlags fd mask).revents = fd.revents := by
  unfold setPollfdFlags
  split_ifs <;> rfl

/-- The descriptor of a slot, parked or not. -/
def cmGetConnectionFd (fd : Pollfd) : ℤ :=
  if fd.fd < 0 then complement fd.fd else fd.fd

/-- Slot `i` of the manager: `connections[i]` and `fds[2 + i]`. The fields `own` and `inc` are
not part of the program's data. -/
structure Slot where
  ref : ℕ
  conn : Connection
  pfd : Pollfd
  own : ℕ
  inc : ℕ

end OsTasks.PortForwarding
