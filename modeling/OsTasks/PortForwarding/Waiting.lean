import OsTasks.PortForwarding.Descriptors
import OsTasks.PortForwarding.Draining
import OsTasks.PortForwarding.Fifo

/-!
# Clients that wait for the answer of the peer

A client that has been announced waits for `CMD_ACK`: its socket is neither read nor written, and
there is nothing to announce and nothing to encode. Updates leave it alone, whatever happens on its
socket.

## Main definitions

* `Intact`: a connection that has not ended in any direction.
* `Waits`: a client that has been announced and waits.

## Main results

* `pollTurn_of_quiet`, `pollTurn_of_bytes`, `Waits.pollTurn`: what `cm_poll` does to a connection.
* `stateLoop_of_waits`, `stateLoop_of_new`: what is announced of waiting clients, and of a new one.
* `encodeConnections_of_empty`: empty inputs are passed over.
-/

namespace OsTasks.PortForwarding

variable {s : Slot} {env : SocketEnv} {ready : ℕ → PollMask}

/-! ### Polling one connection -/

/-- No direction of the connection has ended, and it is not marked for deletion. -/
structure Intact (c : Connection) : Prop where
  state : isAlive c.state = true
  inState : isAlive c.inState = true
  outState : isAlive c.outState = true

theorem closeDirection_of_alive {state : ConnState} (h : isAlive state = true) :
    closeDirection state = state := by
  have hclose : shouldClose state = false := by
    rw [isAlive_iff] at h
    simp [shouldClose, h.1, h.2.2]
  rw [closeDirection, hclose]
  rfl

theorem intact_of_new {conn : Connection} (hstate : isAlive conn.state = true)
    (hin : conn.inState = {}) (hout : conn.outState = {}) : Intact conn := by
  refine ⟨hstate, ?_, ?_⟩
  · rw [hin]
    rfl
  · rw [hout]
    rfl

theorem Intact.closeSocket (h : Intact s.conn) : (closeSocket s).1 = s := by
  obtain ⟨heof, hclosed, hdel⟩ := (isAlive_iff _).mp h.state
  rcases closeSocket_cases s with ⟨-, h'⟩ | ⟨-, hclose, -⟩ | ⟨-, -, h'⟩
  · exact h'
  · simp [shouldCloseSocket, shouldClose, heof, hdel, h.inState] at hclose
  · rw [h', Slot.shutDirections, closeDirection_of_alive h.inState,
      closeDirection_of_alive h.outState]

theorem Intact.delete (h : Intact s.conn) : s.conn.state.delete = false :=
  ((isAlive_iff _).mp h.state).2.2

/-- An intact connection is polled. -/
theorem Intact.enterSlot (h : Intact s.conn) : enterSlot s = some (armOutput s) := by
  rw [PortForwarding.enterSlot, h.closeSocket, if_neg (by simp [h.delete])]

/-- An intact connection that is still intact after it has been served stays. -/
theorem leaveSlot_of_intact (h : Intact (serve env s).1.conn) :
    leaveSlot env s = some (serve env s).1 := by
  rw [leaveSlot, h.closeSocket, if_neg (by simp [h.delete])]

/-- `poll` looks at the descriptor for input. -/
def Listens (pfd : Pollfd) : Prop := 0 ≤ pfd.fd ∧ pfd.events.pollin = true

/-- A descriptor for which something else may be requested, but still input if it was. -/
structure PfdKeeps (pfd pfd' : Pollfd) : Prop where
  revents : pfd'.revents = pfd.revents
  listens : Listens pfd → Listens pfd'

variable {pfd pfd' : Pollfd}

theorem PfdKeeps.refl (pfd : Pollfd) : PfdKeeps pfd pfd := ⟨rfl, id⟩

theorem pfdKeeps_set (pfd : Pollfd) (mask : PollMask) : PfdKeeps pfd (setPollfdFlags pfd mask) := by
  unfold setPollfdFlags
  split_ifs with hmask hfd
  · exact .refl pfd
  · exact ⟨rfl, fun h => absurd h.1 (Int.not_le.mpr hfd)⟩
  · exact ⟨rfl, fun h => ⟨h.1, by rw [h.2]; rfl⟩⟩

theorem pfdKeeps_clear_pollout (pfd : Pollfd) :
    PfdKeeps pfd (clearPollfdFlags pfd { pollout := true }) := by
  unfold clearPollfdFlags
  dsimp only
  split_ifs with hnone
  · refine ⟨rfl, fun h => ?_⟩
    rw [h.2] at hnone
    simp at hnone
  · exact ⟨rfl, fun h => ⟨h.1, by rw [h.2]; rfl⟩⟩

theorem armOutput_eq (s : Slot) : ∃ pfd, armOutput s = { s with pfd := pfd } ∧
    PfdKeeps s.pfd pfd := by
  unfold armOutput
  split_ifs
  · exact ⟨_, rfl, .refl _⟩
  · exact ⟨_, rfl, pfdKeeps_set _ _⟩
  · exact ⟨_, rfl, .refl _⟩

/-- A connection that is not read. -/
theorem receive_of_quiet (r : ReadResult) (hroom : bufFull s.conn.inBuf = false)
    (hin : isAlive s.conn.inState = true) (hquiet : s.pfd.revents.pollin = false) :
    ∃ pfd, (receive r s).1 = { s with pfd := pfd } ∧ PfdKeeps s.pfd pfd := by
  have hrearm : rearmIn s.pfd s.conn = setPollfdFlags s.pfd { pollin := true } := by
    rw [rearmIn, hroom, hin]
    rfl
  unfold receive
  rw [hquiet, Bool.false_and, if_neg Bool.false_ne_true, hrearm]
  split_ifs
  · exact ⟨_, rfl, .refl _⟩
  · exact ⟨_, rfl, pfdKeeps_set _ _⟩

theorem bufRead_of_room {buf : RoundBuffer} {bs : List UInt8} (hun : buf.Unwrapped) (hne : bs ≠ [])
    (hroom : bs.length ≤ bufFreeLength buf) :
    bufRead (.bytes bs) buf = ((bs.length : ℤ), bs, buf.put bs) := by
  have hlen := (regionsSound_of_canStore (.inl hun)).2
  have hsome : (bufWritingIov buf).length ≠ 0 := by
    intro hzero
    rw [List.length_eq_zero_iff.mp hzero] at hlen
    have hpos := List.length_pos_iff.mpr hne
    have hnone : iovLength [] = 0 := rfl
    omega
  unfold bufRead
  dsimp only
  rw [if_neg hsome, List.take_of_length_le (hroom.trans_eq hlen.symm)]
  rfl

/-- A connection that is read, and delivers bytes. -/
theorem receive_of_bytes {bs : List UInt8} (hstate : s.conn.state.stopped = false)
    (hin : isAlive s.conn.inState = true) (hpollin : s.pfd.revents.pollin = true)
    (hun : s.conn.inBuf.Unwrapped) (hne : bs ≠ [])
    (hroom : bs.length ≤ bufFreeLength s.conn.inBuf) :
    ∃ pfd, (receive (.bytes bs) s).1 = { s with
      conn := { s.conn with inBuf := s.conn.inBuf.put bs }, pfd := pfd } ∧
      pfd.revents = s.pfd.revents := by
  have hpos := List.length_pos_iff.mpr hne
  have hread := bufRead_of_room hun hne hroom
  have hfull : bufFull s.conn.inBuf = false := by
    unfold bufFreeLength at hroom
    rw [bufFull, beq_eq_false_iff_ne]
    omega
  unfold receive isStopped
  rw [hin, hstate, hpollin, hfull, hread]
  refine ⟨rearmIn s.pfd { s.conn with inBuf := s.conn.inBuf.put bs }, ?_, revents_rearmIn ..⟩
  have hcause : getRwErrorCause (bs.length : ℤ) (ReadResult.bytes bs).errno = .none :=
    getRwErrorCause_of_pos (by omega) _
  dsimp only
  rw [hcause]
  rfl

/-- A connection that is not written to. -/
theorem transmit_of_quiet (r : WriteResult) (hquiet : s.pfd.revents.pollout = false) :
    ∃ pfd, (transmit r s).1 = { s with pfd := pfd } ∧ PfdKeeps s.pfd pfd := by
  unfold transmit rearmOut
  rw [hquiet, Bool.false_and, if_neg Bool.false_ne_true]
  split_ifs
  · exact ⟨_, rfl, .refl _⟩
  · exact ⟨_, rfl, pfdKeeps_clear_pollout _⟩
  · exact ⟨_, rfl, pfdKeeps_set _ _⟩

theorem pollRevents_of_none (pfd : Pollfd) : pollRevents {} pfd = {} := by
  unfold pollRevents
  split_ifs <;> rfl

theorem serve_of_alive (h : isAlive s.conn.state = true) :
    (serve env s).1 = (transmit (env.write s.ref) (receive (env.read s.ref) s).1).1 := by
  rw [serve, if_pos h]

/-- **Nothing is reported for a connection.** Only what is requested of `poll` changes. -/
theorem pollTurn_of_quiet (h : Intact s.conn) (hroom : bufFull s.conn.inBuf = false)
    (hready : ready s.ref = {}) :
    ∃ pfd, pollTurn env ready s = some { s with pfd := pfd } ∧ (Listens s.pfd → Listens pfd) := by
  obtain ⟨pfd₁, harm, hkeeps₁⟩ := armOutput_eq s
  let p : Slot := pollSlot ready { s with pfd := pfd₁ }
  have hnone : p.pfd.revents = {} := by
    change pollRevents (ready s.ref) pfd₁ = {}
    rw [hready, pollRevents_of_none]
  obtain ⟨pfd₂, hreceive, hkeeps₂⟩ :=
    receive_of_quiet (s := p) (env.read s.ref) hroom h.inState (by rw [hnone])
  obtain ⟨pfd₃, htransmit, hkeeps₃⟩ := transmit_of_quiet (s := { p with pfd := pfd₂ })
    (env.write s.ref) (by rw [hkeeps₂.revents, hnone])
  have hserve : (serve env p).1 = { s with pfd := pfd₃ } := by
    rw [serve_of_alive (s := p) h.state]
    change (transmit (env.write s.ref) (receive (env.read s.ref) p).1).1 = _
    rw [hreceive]
    exact htransmit
  refine ⟨pfd₃, ?_, fun hlisten => hkeeps₃.listens (hkeeps₂.listens (hkeeps₁.listens hlisten))⟩
  rw [pollTurn, h.enterSlot, Option.bind_some, harm]
  change leaveSlot env p = _
  rw [leaveSlot_of_intact (hserve ▸ h), hserve]

/-- **Bytes arrive for a connection.** They go into its input. -/
theorem pollTurn_of_bytes {bs : List UInt8} (h : Intact s.conn)
    (hstate : s.conn.state.stopped = false) (hlisten : Listens s.pfd)
    (hready : ready s.ref = { pollin := true }) (hread : env.read s.ref = .bytes bs)
    (hun : s.conn.inBuf.Unwrapped) (hne : bs ≠ [])
    (hroom : bs.length ≤ bufFreeLength s.conn.inBuf) :
    ∃ pfd, pollTurn env ready s = some { s with
      conn := { s.conn with inBuf := s.conn.inBuf.put bs }, pfd := pfd } := by
  obtain ⟨pfd₁, harm, hkeeps₁⟩ := armOutput_eq s
  obtain ⟨hfd, hpollin⟩ := hkeeps₁.listens hlisten
  let p : Slot := pollSlot ready { s with pfd := pfd₁ }
  have hrevents : p.pfd.revents = { pollin := true } := by
    change pollRevents (ready s.ref) pfd₁ = _
    rw [hready, pollRevents, if_neg (Int.not_lt.mpr hfd), hpollin]
    rfl
  obtain ⟨pfd₂, hreceive, hrevents₂⟩ :=
    receive_of_bytes (s := p) hstate h.inState (by rw [hrevents]) hun hne hroom
  let q : Slot := { s with conn := { s.conn with inBuf := s.conn.inBuf.put bs }, pfd := pfd₂ }
  obtain ⟨pfd₃, htransmit, -⟩ := transmit_of_quiet (s := q) (env.write s.ref)
    (by rw [hrevents₂, hrevents])
  have hserve : (serve env p).1 = { q with pfd := pfd₃ } := by
    rw [serve_of_alive (s := p) h.state]
    change (transmit (env.write s.ref) (receive (env.read s.ref) p).1).1 = _
    rw [hread, hreceive]
    exact htransmit
  have hintact : Intact (serve env p).1.conn := by
    rw [hserve]
    exact ⟨h.state, h.inState, h.outState⟩
  refine ⟨pfd₃, ?_⟩
  rw [pollTurn, h.enterSlot, Option.bind_some, harm]
  change leaveSlot env p = _
  rw [leaveSlot_of_intact hintact, hserve]

/-- A client that has been announced and waits for the answer. -/
structure Waits (c : Connection) : Prop where
  state : c.state = { stopped := true }
  inState : c.inState = {}
  outState : c.outState = {}
  inBuf : c.inBuf.length = 0
  outBuf : c.outBuf.length = 0

theorem Waits.intact (h : Waits s.conn) : Intact s.conn :=
  intact_of_new (by rw [h.state]; rfl) h.inState h.outState

/-- **A waiting client is left alone**, whatever happens on its socket. -/
theorem Waits.pollTurn (h : Waits s.conn) :
    ∃ pfd, pollTurn env ready s = some { s with pfd := pfd } := by
  have harm : armOutput s = s := if_pos ((bufEmpty_iff _).mpr h.outBuf)
  have hstop : isStopped s.conn.state = true := by
    rw [h.state]
    rfl
  let p : Slot := pollSlot ready s
  have hreceive : (receive (env.read s.ref) p).1 = p := by
    rw [receive, if_pos (by rw [Bool.or_eq_true]; exact .inr hstop)]
  have htransmit : (transmit (env.write s.ref) p).1 = p := by
    rw [transmit, if_pos (by rw [Bool.or_eq_true]; exact .inr hstop)]
  have hserve : (serve env p).1 = p := by
    rw [serve_of_alive (s := p) h.intact.state]
    change (transmit (env.write s.ref) (receive (env.read s.ref) p).1).1 = p
    rw [hreceive, htransmit]
  refine ⟨p.pfd, ?_⟩
  rw [PortForwarding.pollTurn, h.intact.enterSlot, Option.bind_some, harm]
  change leaveSlot env p = _
  rw [leaveSlot_of_intact (hserve.symm ▸ h.intact), hserve]
  rfl

/-! ### One call of `cm_poll` -/

/-- The slot that `accept_connection` adds. -/
def newClient (malloc : Malloc) (m : Manager) (fd : ℕ) : Slot where
  ref := m.nextRef
  conn :=
    { id := -1
      state := { new := true }
      inState := {}
      outState := {}
      inBuf := bufCreate malloc.inMem m.bufSize
      outBuf := bufCreate malloc.outMem m.bufSize }
  pfd := { fd := fd, events := { pollin := true }, revents := {} }
  own := fd
  inc := m.nextRef

theorem freshClient_newClient (malloc : Malloc) (m : Manager) (fd : ℕ) :
    FreshClient m (newClient malloc m fd) :=
  ⟨rfl, rfl, rfl, rfl, rfl, rfl, rfl, rfl⟩

theorem acceptConnection_eq {env : AcceptEnv} {m : Manager} {fd : ℕ} (hresult : env.result = .ok fd)
    (hmalloc : env.malloc.ok = true) (hcount : m.slots.length ≠ managerMaxConnections) :
    ∃ log, acceptConnection env m = .ok
      { m with
        slots := m.slots ++ [newClient env.malloc m fd]
        nextRef := m.nextRef + 1
        log := log } := by
  refine ⟨.opened m.nextRef fd :: m.log, ?_⟩
  rw [acceptConnection, if_neg hcount, hresult]
  unfold acceptSocket makeConnection cmAddConnection
  simp only [hmalloc, if_true, if_neg hcount]
  rfl

theorem length_beforePoll_le (m : Manager) : (beforePoll m).slots.length ≤ m.slots.length := by
  rw [slots_beforePoll]
  exact List.length_filterMap_le _ _

theorem acceptor_shrink_serveFirst (env : SocketEnv) (n : ℕ) (m : Manager) :
    (shrink (closeSockets (serveFirst env n m))).acceptor = m.acceptor := rfl

/-- **A client comes.** -/
theorem cmPoll_of_client {env : PollEnv} {m : Manager} {fd : ℕ} (hready : env.ready = some ready)
    (hpipe : env.pipe ≠ .shutdown) (hclient : env.client = true) (hacceptor : 0 ≤ m.acceptor)
    (hresult : env.accept.result = .ok fd) (hmalloc : env.accept.malloc.ok = true)
    (hcount : m.slots.length < managerMaxConnections) :
    ∃ m', cmPoll env m = .ok (m', .none) ∧
      m'.slots = m.slots.filterMap (PortForwarding.pollTurn env.sockets ready) ++
        [newClient env.accept.malloc m fd] ∧ m'.acceptor = m.acceptor := by
  have hlen : (pollAll ready (beforePoll m)).slots.length ≠ managerMaxConnections := by
    rw [slots_pollAll, List.length_map]
    exact ((length_beforePoll_le m).trans_lt hcount).ne
  obtain ⟨log, haccept⟩ := acceptConnection_eq hresult hmalloc hlen
  let m₁ : Manager :=
    { pollAll ready (beforePoll m) with
      slots := (pollAll ready (beforePoll m)).slots ++ [newClient env.accept.malloc m fd]
      nextRef := m.nextRef + 1
      log := log }
  refine ⟨shrink (closeSockets (serveFirst env.sockets (beforePoll m).slots.length m₁)), ?_,
    slots_leave [newClient env.accept.malloc m fd] rfl fun s hs => ?_,
    acceptor_shrink_serveFirst _ _ m₁⟩
  · have hcond : (env.client && decide (0 ≤ (pollAll ready (beforePoll m)).acceptor)) = true := by
      rw [hclient, Bool.true_and, decide_eq_true_eq]
      exact hacceptor
    unfold cmPoll
    dsimp only
    rw [hready]
    dsimp only
    rw [if_neg hpipe, if_pos hcond, haccept]
    rfl
  · rw [List.mem_singleton.mp hs]
    exact ⟨m, freshClient_newClient ..⟩

/-- No client comes. -/
theorem cmPoll_of_no_client {env : PollEnv} (m : Manager) (hready : env.ready = some ready)
    (hpipe : env.pipe ≠ .shutdown) (hclient : env.client = false) :
    ∃ m', cmPoll env m = .ok (m', .none) ∧
      m'.slots = m.slots.filterMap (PortForwarding.pollTurn env.sockets ready) := by
  refine ⟨shrink (closeSockets (serveFirst env.sockets (beforePoll m).slots.length
    (pollAll ready (beforePoll m)))), ?_, (slots_leave [] (List.append_nil _).symm fun s hs =>
      absurd hs List.not_mem_nil).trans (List.append_nil _)⟩
  unfold cmPoll
  dsimp only
  rw [hready]
  dsimp only
  rw [if_neg hpipe, hclient]
  rfl

/-! ### Sorting and announcing -/

variable {conns conns' : Conns} {c c' : Controller} {tunnel : Slot}

/-- A client without an id that comes last takes the id on top of the stack, if there is one. -/
theorem Assigns.append_client {stack stack' : List ℤ} {l slots' : List Slot} {t : Slot}
    (hl : ∀ s ∈ l, 0 ≤ s.conn.id) (ht : t.conn.id < 0)
    (h : Assigns stack (l ++ [t]) stack' slots') :
    stack = [] ∧ stack' = [] ∧ slots' = l ++ [t] ∨
      ∃ id, stack = id :: stack' ∧ slots' = l ++ [{ t with conn := { t.conn with id := id } }] := by
  induction l generalizing slots' with
  | nil =>
    cases h with
    | keep hid => exact absurd hid (Int.not_le.mpr ht)
    | wait _ hrest =>
      cases hrest
      exact .inl ⟨rfl, rfl, rfl⟩
    | take _ hrest =>
      cases hrest
      exact .inr ⟨_, rfl, rfl⟩
  | cons s l ih =>
    have hs := hl s List.mem_cons_self
    cases h with
    | keep _ hrest =>
      rcases ih (fun u hu => hl u (List.mem_cons_of_mem _ hu)) hrest with
        ⟨hnil, hnil', rfl⟩ | ⟨id, hstack, rfl⟩
      · exact .inl ⟨hnil, hnil', rfl⟩
      · exact .inr ⟨id, hstack, rfl⟩
    | wait hid => exact absurd hs (Int.not_le.mpr hid)
    | take hid => exact absurd hs (Int.not_le.mpr hid)

/-- There is nothing to announce of a waiting client. -/
theorem Waits.stateTurn (h : Waits s.conn) (queue : CmdQueue) :
    stateTurn s queue = { slot := s, queue := queue } := by
  have hnew : announceNew { slot := s, queue := queue } = { slot := s, queue := queue } := by
    rw [announceNew, isNewConnection, h.state]
    rfl
  unfold PortForwarding.stateTurn announceCloseIn announceCloseOut shouldCloseConnection
    shouldCloseIn
    shouldCloseOut
  simp [hnew, h.state, h.inState, h.outState]

/-- **Waiting clients are not announced again.** -/
theorem stateLoop_of_waits {ids : List ℕ} (hnd : (c.slots.map Slot.ref).Nodup)
    (h : ∀ i ∈ ids, ∀ s, lookup c.slots conns i = some s → Waits s.conn) :
    stateLoop ids conns c = (.ok, c, conns) := by
  induction ids with
  | nil => rfl
  | cons i ids ih =>
    have hrest := ih fun j hj => h j (List.mem_cons_of_mem _ hj)
    rw [stateLoop]
    cases hs : lookup c.slots conns i with
    | none => exact hrest
    | some s =>
      dsimp only
      rw [(h i List.mem_cons_self s hs).stateTurn, apply_unchanged hnd (lookup_eq_some hs).1]
      exact hrest

theorem stateLoop_append {ids ids' : List ℕ} (h : stateLoop ids conns c = (.ok, c', conns')) :
    stateLoop (ids ++ ids') conns c = stateLoop ids' conns' c' := by
  induction ids generalizing conns c with
  | nil =>
    obtain ⟨rfl, rfl⟩ := Prod.mk.inj (Prod.mk.inj h).2
    rfl
  | cons i ids ih =>
    rw [List.cons_append, stateLoop]
    rw [stateLoop] at h
    cases hs : lookup c.slots conns i with
    | none =>
      rw [hs] at h
      exact ih h
    | some s =>
      rw [hs] at h
      dsimp only at h ⊢
      split_ifs at h ⊢ with hagain
      · exact absurd (Prod.mk.inj h).1 (by decide)
      · exact ih h
      · exact ih h

/-- A client that is announced, and stopped. -/
def Slot.announced (s : Slot) : Slot :=
  { s with conn := { s.conn with state := { stopped := true } } }

/-- A client that has just come, with an empty or unread input, is announced and stopped. -/
theorem stateTurn_of_new {queue q : CmdQueue} (hstate : s.conn.state = { new := true })
    (hin : s.conn.inState = {}) (hout : s.conn.outState = {})
    (hq : cmdqEnqueue queue ⟨cmdNew, toByte s.conn.id, s.inc⟩ = some q) :
    stateTurn s queue = { slot := s.announced, queue := q, events := [.queued s cmdNew] } := by
  have hnew : announceNew { slot := s, queue := queue } =
      { slot := s.announced, queue := q, events := [.queued s cmdNew] } := by
    rw [announceNew, isNewConnection, hstate, if_pos rfl, Turn.send, hq]
    simp only [hstate]
    rfl
  unfold stateTurn announceCloseIn announceCloseOut shouldCloseConnection shouldCloseIn
    shouldCloseOut
  simp [hnew, Slot.announced, hin, hout]

/-- The endpoint after it has announced a client. -/
def Controller.announceClient (c : Controller) (s : Slot) (q : CmdQueue) : Controller :=
  ((c.modify s.ref fun _ => s.announced.conn).setQueue q).note (.queued s cmdNew)

/-- **One client is new, the others wait.** -/
theorem stateLoop_of_new {k : ℕ} {q : CmdQueue} (hnd : (c.slots.map Slot.ref).Nodup) (hpos : 1 ≤ k)
    (hle : k ≤ 255) (hs : lookup c.slots conns k = some s) (hstate : s.conn.state = { new := true })
    (hin : s.conn.inState = {}) (hout : s.conn.outState = {})
    (hq : cmdqEnqueue c.pump.cmdQueue ⟨cmdNew, toByte s.conn.id, s.inc⟩ = some q)
    (hothers : ∀ i, 1 ≤ i → i ≠ k → ∀ u, lookup c.slots conns i = some u → Waits u.conn) :
    stateLoop (List.range' 1 255) conns c = (.ok, c.announceClient s q, conns) := by
  have hmem := (lookup_eq_some hs).1
  have hsplit :
      List.range' 1 255 = List.range' 1 (k - 1) ++ k :: List.range' (k + 1) (255 - k) := by
    have hfirst : 1 + (k - 1) = k := by omega
    have hall : k - 1 + (255 - k + 1) = 255 := by omega
    have happend := @List.range'_append_1 1 (k - 1) (255 - k + 1)
    rw [hfirst, hall] at happend
    rw [← List.range'_succ, happend]
  have hbefore : stateLoop (List.range' 1 (k - 1)) conns c = (.ok, c, conns) :=
    stateLoop_of_waits hnd fun i hi => by
      rw [List.mem_range'_1] at hi
      exact hothers i hi.1 (by omega)
  have happly : c.apply s (stateTurn s c.pump.cmdQueue) = c.announceClient s q := by
    rw [stateTurn_of_new hstate hin hout hq]
    rfl
  rw [hsplit, stateLoop_append hbefore, stateLoop, hs]
  dsimp only
  rw [happly, stateTurn_of_new hstate hin hout hq]
  refine stateLoop_of_waits ?_ fun i hi u hu => ?_
  · change ((modifyConn c.slots s.ref fun _ => s.announced.conn).map Slot.ref).Nodup
    rw [map_ref_modifyConn]
    exact hnd
  · rw [List.mem_range'_1] at hi
    change lookup (modifyConn c.slots s.ref fun _ => s.announced.conn) conns i = some u at hu
    rw [lookup_modifyConn, Option.map_eq_some_iff] at hu
    obtain ⟨u, hu, rfl⟩ := hu
    have hwaits := hothers i (by omega) (by omega) u hu
    have hne : u.ref ≠ s.ref := by
      intro heq
      rw [eq_of_ref_eq hnd (lookup_eq_some hu).1 hmem heq] at hwaits
      exact absurd (hstate.symm.trans hwaits.state) (by decide)
    rwa [modifySlot_of_ne hne]

/-! ### Looking up connections with different ids -/

/-- When ids are different and no connection is marked for deletion, an id is looked up to the
connection that has it. -/
theorem ConnsOk.lookup_iff_mem {slots : List Slot} (h : ConnsOk conns slots)
    (hnd : (slots.map Slot.ref).Nodup) (hids : (slots.map fun s => s.conn.id).Nodup)
    (hdel : ∀ s ∈ slots, s.conn.state.delete = false) {i : ℕ} {s : Slot} :
    lookup slots conns i = some s ↔ s ∈ slots ∧ s.conn.id = i := by
  rw [h.lookup_iff hnd]
  constructor
  · exact fun hs => mem_of_lastWithId hs.1
  · rintro ⟨hs, hid⟩
    refine ⟨?_, hdel s hs⟩
    cases hlast : lastWithId i slots with
    | none => exact absurd hid (lastWithId_eq_none_iff.mp hlast s hs)
    | some t =>
      obtain ⟨ht, htid⟩ := mem_of_lastWithId hlast
      rw [List.inj_on_of_nodup_map hids ht hs (htid.trans hid.symm)]

theorem modifyConn_head {slots : List Slot} (hnd : ((s :: slots).map Slot.ref).Nodup)
    (f : Connection → Connection) :
    modifyConn (s :: slots) s.ref f = { s with conn := f s.conn } :: slots := by
  rw [List.map_cons, List.nodup_cons] at hnd
  rw [modifyConn_eq_map, List.map_cons, modifySlot_self]
  refine congrArg _ (map_modifySlot_of_ne (fun t ht href => hnd.1 ?_) f)
  rw [← href]
  exact List.mem_map_of_mem ht

theorem modifyConn_last {slots : List Slot} (hnd : ((slots ++ [s]).map Slot.ref).Nodup)
    (f : Connection → Connection) :
    modifyConn (slots ++ [s]) s.ref f = slots ++ [{ s with conn := f s.conn }] := by
  rw [List.map_append, List.nodup_append] at hnd
  have hne : ∀ t ∈ slots, t.ref ≠ s.ref := fun t ht =>
    hnd.2.2 _ (List.mem_map_of_mem ht) _ List.mem_cons_self
  rw [modifyConn_eq_map, List.map_append, map_modifySlot_of_ne hne, List.map_singleton,
    modifySlot_self]

/-! ### The pump -/

variable {handler : Controller → Command → Controller}

/-- Nothing has come from the tunnel. -/
theorem recvFromTunnel_of_empty {env : PumpEnv} (ht : lookup c.slots conns 0 = some tunnel)
    (hempty : tunnel.conn.inBuf.length = 0) : recvFromTunnel handler env conns c = .ok c := by
  unfold recvFromTunnel
  rw [ht]
  exact if_pos ((bufEmpty_iff _).mpr hempty)

/-- **There is nothing to encode.** -/
theorem encodeConnections_of_empty (index : ℕ) (is : List ℕ)
    (h : ∀ s ∈ c.slots, s.conn.id ≠ 0 → s.conn.inBuf.length = 0)
    (hnd : (c.slots.map Slot.ref).Nodup)
    (hentries : EntriesAt conns c.slots) : encodeConnections conns index is c = c := by
  induction is with
  | nil => rfl
  | cons i is ih =>
    cases hs : lookup c.slots conns ((index + i) % 255 + 1) with
    | none =>
      rw [encodeConnections, hs]
      exact ih
    | some s =>
      cases ht : lookup c.slots conns 0 with
      | none =>
        rw [encodeConnections, hs, ht]
        exact ih
      | some tunnel =>
        have hid := hentries.id hnd hs
        have hempty := h s (lookup_eq_some hs).1 (by omega)
        have hsame : c.encodeTo s tunnel = c := by
          have hslots := slots_encodeTo_of_empty hnd (lookup_eq_some hs).1
            (lookup_eq_some ht).1 hempty
          unfold Controller.encodeTo at hslots ⊢
          dsimp only at hslots ⊢
          rw [if_pos ((bufEmpty_iff _).mpr hempty)] at hslots ⊢
          exact congrArg c.setSlots hslots
        rw [encodeConnections_cons index i is hs ht, encode_of_empty hempty, hsame, if_pos rfl]
        split_ifs <;> exact ih

/-- One command is in the queue, and there is room for it. -/
theorem pumpTransfer_of_one {env : PumpEnv} (ht : lookup c.slots conns 0 = some tunnel)
    (hempty : tunnel.conn.inBuf.length = 0) (hqueue : c.pump.cmdQueue.length = 1)
    (hroom : 5 ≤ bufFreeLength tunnel.conn.outBuf) :
    pumpTransfer handler env conns c = .ok (encodeConnections conns
      (c.sendFirst tunnel).pump.currentIndex (List.range (maxConnections - 1))
      (c.sendFirst tunnel)) := by
  have hdrain : drainCommands conns (cmdqLength c.pump.cmdQueue) c =
    (true, c.sendFirst tunnel) := by
    rw [cmdqLength, hqueue, drainCommands_succ ht (by omega), if_pos hroom]
    rfl
  rw [pumpTransfer_eq, recvFromTunnel_of_empty ht hempty]
  exact congrArg Except.ok (sendToTunnel_of_sent hdrain)

end OsTasks.PortForwarding
