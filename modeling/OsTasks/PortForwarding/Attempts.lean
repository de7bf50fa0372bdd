import OsTasks.PortForwarding.Manager

/-!
# Attempts to make a connection

`accept_connection` and `cm_connect` acquire a socket, memory and a place in the table, in different
orders, and each step may fail. `cm_connect` returns after each failure and gives back what it has
acquired. `accept_connection` prints an error of `accept` and goes on, so that a connection without
a socket enters the table with the descriptor `-1`; and when there is no memory it goes to the label
`abort`, which prints the address of the connection that was not made.

## Main definitions

* `Attempt`: a call of `accept_connection` or of `cm_connect`.
* `Attempt.Succeeds`: every step of the attempt succeeds.
* `LeavesManager`: a failed attempt leaves the manager as it was, and a successful one adds a valid
  descriptor.

## Main results

* `leavesManager_iff`: the attempts that do so.
-/

namespace OsTasks.PortForwarding

/-! ### Attempts -/

inductive Attempt
  | accept (env : AcceptEnv)
  | connect (env : ConnectEnv) (inBufSize outBufSize : ℕ+) (id : ℤ) (inc : ℕ)

namespace Attempt

/-- The manager after an attempt. -/
def run (m : Manager) : Attempt → Except Fault Manager
  | accept env => acceptConnection env m
  | connect env inBufSize outBufSize id inc => .ok (cmConnect env m inBufSize outBufSize id inc).2

/-- The descriptor that `accept` or `socket` returns. -/
def descriptor : Attempt → Option ℕ
  | accept env => env.result.toOption
  | connect env .. => env.socket

/-- The allocations of `make_connection` succeed. -/
def memory : Attempt → Bool
  | accept env => env.malloc.ok
  | connect env .. => env.malloc.ok

/-- `connect` succeeds, where it is called. -/
def connected : Attempt → Bool
  | accept _ => true
  | connect env .. => env.connect

/-- No step of an attempt fails. -/
structure Succeeds (a : Attempt) (m : Manager) : Prop where
  room : m.slots.length ≠ managerMaxConnections
  memory : a.memory = true
  descriptor : a.descriptor.isSome
  connected : a.connected = true

end Attempt

/-! ### What an attempt leaves -/

/-- The descriptors that some calls open. -/
def openedFds (calls : List SysCall) : List ℤ :=
  calls.filterMap fun
    | .opened _ fd => some (fd : ℤ)
    | _ => none

/-- The descriptors that some calls close. -/
def closedFds (calls : List SysCall) : List ℤ :=
  calls.filterMap fun
    | .close _ fd | .closeUnused _ fd | .closeListener fd | .closePipe fd => some fd
    | _ => none

/-- The table and the descriptors of a manager are as before, and what was opened since has been
closed once. -/
structure Unchanged (m m' : Manager) : Prop where
  slots : m'.slots = m.slots
  acceptor : m'.acceptor = m.acceptor
  pipe : m'.pipeRead = m.pipeRead ∧ m'.pipeWrite = m.pipeWrite
  closed : ∃ calls, m'.log = calls ++ m.log ∧ (closedFds calls).Perm (openedFds calls)

theorem Unchanged.refl (m : Manager) : Unchanged m m :=
  ⟨rfl, rfl, ⟨rfl, rfl⟩, [], rfl, .nil⟩

/-- An attempt dereferences no null pointer; when it fails it leaves the manager unchanged, and
when it succeeds every slot that was not there before holds the descriptor it has opened. -/
def LeavesManager (m : Manager) (a : Attempt) : Prop :=
  ∃ m', a.run m = .ok m' ∧ (¬ a.Succeeds m → Unchanged m m') ∧
    (a.Succeeds m → ∀ s ∈ m'.slots, s ∈ m.slots ∨ ∃ fd : ℕ, s.pfd.fd = fd ∧ a.descriptor = some fd)

/-- The steps of an attempt after which its function stops or can go on: for a client, the table is
full, `accept` fails with `EINTR` or `EAGAIN`, or `accept` and the allocations succeed. -/
def Attempt.Guarded (m : Manager) : Attempt → Prop
  | .accept env =>
    m.slots.length = managerMaxConnections ∨
      match env.result with
      | .error e => e = .eintr ∨ e = .eagain
      | .ok _ => env.malloc.ok = true
  | .connect .. => True

variable {m : Manager}

/-- What is in the table after a connection has been added. -/
theorem cmAddConnection_eq (hroom : m.slots.length ≠ managerMaxConnections) (conn : Connection)
    (fd : ℤ) (own inc : ℕ) :
    ∃ s m', cmAddConnection m conn fd own inc = some m' ∧ m'.slots = m.slots ++ [s] ∧
      s.pfd.fd = fd := by
  rw [cmAddConnection, if_neg hroom]
  exact ⟨_, _, rfl, rfl, rfl⟩

/-- `cm_connect` cleans up after each of its steps. -/
theorem leavesManager_connect (env : ConnectEnv) (inBufSize outBufSize : ℕ+) (id : ℤ) (inc : ℕ) :
    LeavesManager m (.connect env inBufSize outBufSize id inc) := by
  refine ⟨_, rfl, fun hfails => ?_, fun hsucceeds => ?_⟩
  · unfold cmConnect
    by_cases hroom : m.slots.length = managerMaxConnections
    · rw [if_pos hroom]
      exact .refl m
    rw [if_neg hroom, makeConnection]
    cases hmemory : env.malloc.ok with
    | false => exact .refl m
    | true =>
      cases hsocket : env.socket with
      | none => exact .refl m
      | some fd =>
        cases hconnect : env.connect with
        | false =>
          -- the socket that could not be connected is closed
          exact ⟨rfl, rfl, ⟨rfl, rfl⟩, [.closeUnused m.nextRef fd, .opened m.nextRef fd], rfl,
            .refl _⟩
        | true =>
          refine absurd ⟨hroom, hmemory, ?_, hconnect⟩ hfails
          rw [Attempt.descriptor, hsocket]
          rfl
  · obtain ⟨hroom, hmemory, hdescriptor, hconnect⟩ := hsucceeds
    simp only [Attempt.memory, Attempt.descriptor,
      Attempt.connected] at hmemory hdescriptor hconnect
    obtain ⟨fd, hfd⟩ := Option.isSome_iff_exists.mp hdescriptor
    rw [Attempt.descriptor, hfd]
    intro s hs
    rw [cmConnect, if_neg hroom, makeConnection, if_pos hmemory, hfd] at hs
    dsimp only at hs
    rw [if_pos hconnect] at hs
    obtain ⟨new, m', hadd, hslots, hnew⟩ :=
      cmAddConnection_eq (m := { m with log := .opened m.nextRef fd :: m.log }) hroom _ fd fd inc
    rw [hadd] at hs
    dsimp only at hs
    rw [hslots, List.mem_append, List.mem_singleton] at hs
    rcases hs with hs | rfl
    · exact .inl hs
    · exact .inr ⟨fd, hnew, rfl⟩

/-- With memory and a place in the table, whatever `accept` returned becomes a connection. -/
theorem acceptSocket_eq {malloc : Malloc} (hmemory : malloc.ok = true)
    (hroom : m.slots.length ≠ managerMaxConnections) (socket : ℤ) (own : ℕ) :
    ∃ s m', acceptSocket malloc m socket own = .ok m' ∧ m'.slots = m.slots ++ [s] ∧
      s.pfd.fd = socket := by
  rw [acceptSocket, makeConnection, if_pos hmemory]
  dsimp only
  obtain ⟨s, m', hadd, hslots, hfd⟩ := cmAddConnection_eq hroom _ socket own m.nextRef
  rw [hadd]
  exact ⟨s, m', rfl, hslots, hfd⟩

/-- Without memory the address of a connection is read that was not made. -/
theorem acceptSocket_of_no_memory {malloc : Malloc} (hmemory : malloc.ok = false) (m : Manager)
    (socket : ℤ) (own : ℕ) : acceptSocket malloc m socket own = .error .nullDeref := by
  rw [acceptSocket, makeConnection, if_neg (by rw [hmemory]; exact Bool.false_ne_true)]

/-- `accept_connection` with a client and memory for it. -/
theorem leavesManager_accept_ok {env : AcceptEnv} {fd : ℕ} (hresult : env.result = .ok fd)
    (hmemory : env.malloc.ok = true) (hroom : m.slots.length ≠ managerMaxConnections) :
    LeavesManager m (.accept env) := by
  have hdescriptor : (Attempt.accept env).descriptor = some fd := by
    rw [Attempt.descriptor, hresult]
    rfl
  obtain ⟨new, m', haccept, hslots, hnew⟩ := acceptSocket_eq
    (m := { m with log := .opened m.nextRef fd :: m.log }) hmemory hroom fd fd
  refine ⟨m', ?_, fun hfails => ?_, fun _ s hs => ?_⟩
  · rw [Attempt.run, acceptConnection, if_neg hroom, hresult]
    exact haccept
  · exact absurd ⟨hroom, hmemory, by rw [hdescriptor]; rfl, rfl⟩ hfails
  · rw [hslots, List.mem_append, List.mem_singleton] at hs
    rcases hs with hs | rfl
    · exact .inl hs
    · exact .inr ⟨fd, hnew, hdescriptor⟩

/-- `accept_connection` after an error of `accept`. -/
theorem leavesManager_accept_error {env : AcceptEnv} {e : Errno} (hresult : env.result = .error e)
    (hroom : m.slots.length ≠ managerMaxConnections) :
    LeavesManager m (.accept env) ↔ e = .eintr ∨ e = .eagain := by
  have hfails : ¬ (Attempt.accept env).Succeeds m := fun h => by
    have hdescriptor := h.descriptor
    rw [Attempt.descriptor, hresult] at hdescriptor
    exact Bool.false_ne_true hdescriptor
  rw [LeavesManager, Attempt.run, acceptConnection, if_neg hroom, hresult]
  dsimp only
  split_ifs with he
  · exact iff_of_true ⟨m, rfl, fun _ => .refl m, fun h => absurd h hfails⟩ he
  · refine iff_of_false ?_ he
    rintro ⟨m', hrun, hunchanged, -⟩
    cases hmemory : env.malloc.ok with
    | false =>
      rw [acceptSocket_of_no_memory hmemory] at hrun
      exact absurd hrun (by rintro ⟨⟩)
    | true =>
      -- the descriptor `-1` has become a connection
      obtain ⟨new, m'', haccept, hslots, -⟩ := acceptSocket_eq hmemory hroom (-1) 0
      obtain rfl := Except.ok.inj (haccept.symm.trans hrun)
      have hlen := congrArg List.length (hslots.symm.trans (hunchanged hfails).slots)
      simp at hlen

/-- **Failed attempts.** An attempt leaves the manager as it was, or adds the descriptor that it
has opened, exactly if it is one of `cm_connect`, or one of `accept_connection` in which `accept`
does not fail with another error than `EINTR` and `EAGAIN` and memory does not run out, unless the
table is full. -/
theorem leavesManager_iff (m : Manager) (a : Attempt) : LeavesManager m a ↔ a.Guarded m := by
  cases a with
  | connect env inBufSize outBufSize id inc =>
    exact iff_of_true (leavesManager_connect env inBufSize outBufSize id inc) trivial
  | accept env =>
    rw [Attempt.Guarded]
    by_cases hroom : m.slots.length = managerMaxConnections
    · refine iff_of_true ⟨m, ?_, fun _ => .refl m, fun h => absurd hroom h.room⟩ (.inl hroom)
      rw [Attempt.run, acceptConnection, if_pos hroom]
    rw [or_iff_right hroom]
    cases hresult : env.result with
    | ok fd =>
      cases hmemory : env.malloc.ok with
      | true => exact iff_of_true (leavesManager_accept_ok hresult hmemory hroom) rfl
      | false =>
        refine iff_of_false ?_ Bool.false_ne_true
        rintro ⟨m', hrun, -⟩
        rw [Attempt.run, acceptConnection, if_neg hroom, hresult] at hrun
        dsimp only at hrun
        rw [acceptSocket_of_no_memory hmemory] at hrun
        exact absurd hrun (by rintro ⟨⟩)
    | error e => exact leavesManager_accept_error hresult hroom

/-- `accept` fails because the process has no descriptor left; there is memory. -/
def noDescriptor : AcceptEnv := ⟨.error .other, ⟨true, fun _ => 0, fun _ => 0⟩⟩

/-- `accept` returns a socket, and there is no memory for the connection. -/
def noMemory : AcceptEnv := ⟨.ok 5, ⟨false, fun _ => 0, fun _ => 0⟩⟩

/-- A manager without connections. -/
def emptyTable : Manager := initManager (Nat.succPNat 0) 3 (4, 5)

/-- The failed call of `accept` adds a connection with the descriptor `-1`, and without memory a
null pointer is dereferenced. -/
theorem not_leavesManager_accept :
    (¬ LeavesManager emptyTable (.accept noDescriptor) ∧
      ((Attempt.accept noDescriptor).run emptyTable).toOption.map
        (fun m => m.slots.map fun s => s.pfd.fd) = some [-1]) ∧
    ¬ LeavesManager emptyTable (.accept noMemory) ∧
      ((Attempt.accept noMemory).run emptyTable).toOption.isNone := by
  refine ⟨⟨?_, rfl⟩, ?_, rfl⟩
  · rw [leavesManager_accept_error rfl (by decide)]
    decide
  · rintro ⟨m', hrun, -⟩
    exact absurd hrun (by rintro ⟨⟩)

end OsTasks.PortForwarding
