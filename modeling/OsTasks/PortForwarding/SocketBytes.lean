import OsTasks.Library.Pipeline
import OsTasks.PortForwarding.Fifo
import OsTasks.PortForwarding.PollSlots

/-!
# The bytes that `cm_poll` moves

One call of `cm_poll` reads bytes from the sockets of the connections and writes bytes to them. Each
connection gets what is read behind its unread input, and gives away the front of its output.

## Main definitions

* `receivedBytes`, `transmittedBytes`: the bytes of one call of `receive` and of `transmit`.
* `polledBytes`: the bytes that `cm_poll` moves for one connection.
* `inputAt`, `outputAt`, `readAt`, `writtenAt`: the same by keys of the connections.

## Main results

* `polledBytes_passes`: one connection.
* `cmPoll_passes`: all connections.
-/

namespace OsTasks.PortForwarding

/-! ### One connection -/

/-- The bytes that `receive` reads. -/
def receivedBytes (r : ReadResult) (s : Slot) : List UInt8 :=
  if !isAlive s.conn.inState || isStopped s.conn.state then []
  else if s.pfd.revents.pollin && !bufFull s.conn.inBuf then (bufRead r s.conn.inBuf).2.1
  else []

/-- The bytes that `transmit` writes. -/
def transmittedBytes (r : WriteResult) (s : Slot) : List UInt8 :=
  if !isAlive s.conn.outState || isStopped s.conn.state then []
  else if s.pfd.revents.pollout && !bufEmpty s.conn.outBuf then (bufWrite r s.conn.outBuf).2.1
  else []

/-- The bytes that the transfer loop reads and writes for a slot. -/
def servedBytes (env : SocketEnv) (s : Slot) : List UInt8 × List UInt8 :=
  if isAlive s.conn.state then
    (receivedBytes (env.read s.ref) s,
      transmittedBytes (env.write s.ref) (receive (env.read s.ref) s).1)
  else ([], [])

/-- The bytes that a call of `cm_poll` reads from the socket of a slot, and those that it writes. -/
def polledBytes (env : PollEnv) (s : Slot) : List UInt8 × List UInt8 :=
  match env.ready, enterSlot s with
  | some ready, some t =>
    if env.pipe = .shutdown then ([], []) else servedBytes env.sockets (pollSlot ready t)
  | _, _ => ([], [])

theorem receive_passes (r : ReadResult) {s : Slot} (h : s.conn.inBuf.CanStore) :
    Passes s.conn.inBuf.contents (receivedBytes r s) [] (receive r s).1.conn.inBuf.contents ∧
      (receive r s).1.conn.outBuf = s.conn.outBuf := by
  unfold Passes receivedBytes receive
  split_ifs
  · exact ⟨List.append_nil _, rfl⟩
  · refine ⟨?_, rfl⟩
    rw [List.nil_append]
    dsimp only
    rw [bufRead_eq_put]
    exact (contents_put_of_canStore (fun _ => h) (length_bufRead_le r s.conn.inBuf)).symm
  · exact ⟨List.append_nil _, rfl⟩

theorem transmit_passes (r : WriteResult) (s : Slot) :
    Passes s.conn.outBuf.contents [] (transmittedBytes r s)
        (transmit r s).1.conn.outBuf.contents ∧
      (transmit r s).1.conn.inBuf = s.conn.inBuf := by
  unfold Passes transmittedBytes transmit
  rw [List.append_nil]
  split_ifs
  · exact ⟨rfl, rfl⟩
  · exact ⟨(bufWrite_spec r s.conn.outBuf).symm, rfl⟩
  · exact ⟨rfl, rfl⟩

theorem serve_passes (env : SocketEnv) {s : Slot} (h : s.conn.inBuf.CanStore) :
    Passes s.conn.inBuf.contents (servedBytes env s).1 [] (serve env s).1.conn.inBuf.contents ∧
      Passes s.conn.outBuf.contents [] (servedBytes env s).2
        (serve env s).1.conn.outBuf.contents := by
  unfold servedBytes serve
  split_ifs
  · obtain ⟨hread, hout⟩ := receive_passes (env.read s.ref) h
    obtain ⟨hwrite, hin⟩ := transmit_passes (env.write s.ref) (receive (env.read s.ref) s).1
    dsimp only
    rw [hin]
    exact ⟨hread, hout ▸ hwrite⟩
  · exact ⟨.refl _, .refl _⟩

theorem buffers_closeSocket (s : Slot) :
    (closeSocket s).1.conn.inBuf = s.conn.inBuf ∧
      (closeSocket s).1.conn.outBuf = s.conn.outBuf := by
  rcases closeSocket_cases s with ⟨-, h⟩ | ⟨-, -, h⟩ | ⟨-, -, h⟩ <;> rw [h] <;> exact ⟨rfl, rfl⟩

theorem buffers_enterSlot {s t : Slot} (h : enterSlot s = some t) :
    t.conn.inBuf = s.conn.inBuf ∧ t.conn.outBuf = s.conn.outBuf := by
  unfold enterSlot at h
  dsimp only at h
  split_ifs at h
  obtain rfl := Option.some.inj h
  rw [conn_armOutput]
  exact buffers_closeSocket s

theorem buffers_leaveSlot {env : SocketEnv} {s t : Slot} (h : leaveSlot env s = some t) :
    t.conn.inBuf = (serve env s).1.conn.inBuf ∧ t.conn.outBuf = (serve env s).1.conn.outBuf := by
  unfold leaveSlot at h
  dsimp only at h
  split_ifs at h
  obtain rfl := Option.some.inj h
  exact buffers_closeSocket _

/-- **One connection in a call of `cm_poll`**: the bytes read come behind its input, and those
written are taken from the front of its output. -/
theorem polledBytes_passes {env : PollEnv} {ready : ℕ → PollMask} {s s' : Slot}
    (hready : env.ready = some ready) (hpipe : env.pipe ≠ .shutdown)
    (hin : s.conn.inBuf.CanStore) (hs' : pollTurn env.sockets ready s = some s') :
    Passes s.conn.inBuf.contents (polledBytes env s).1 [] s'.conn.inBuf.contents ∧
      Passes s.conn.outBuf.contents [] (polledBytes env s).2 s'.conn.outBuf.contents := by
  obtain ⟨t, ht, hleave⟩ := Option.bind_eq_some_iff.mp hs'
  obtain ⟨htin, htout⟩ := buffers_enterSlot ht
  obtain ⟨hin', hout'⟩ := buffers_leaveSlot hleave
  unfold polledBytes
  simp only [hready, ht]
  rw [if_neg hpipe, hin', hout', ← htin, ← htout]
  exact serve_passes env.sockets (s := pollSlot ready t) (htin.symm ▸ hin)

/-! ### All connections -/

section Keys

variable (key : Slot → ℕ)

/-- The unread input of the connection with a key. -/
def inputAt (slots : List Slot) (k : ℕ) : List UInt8 :=
  heldAt key (fun s => s.conn.inBuf.contents) slots k

/-- The unsent output of the connection with a key. -/
def outputAt (slots : List Slot) (k : ℕ) : List UInt8 :=
  heldAt key (fun s => s.conn.outBuf.contents) slots k

/-- The bytes that a call of `cm_poll` reads for the connection with a key. -/
def readAt (env : PollEnv) (slots : List Slot) (k : ℕ) : List UInt8 :=
  heldAt key (fun s => (polledBytes env s).1) slots k

/-- The bytes that a call of `cm_poll` writes for the connection with a key. -/
def writtenAt (env : PollEnv) (slots : List Slot) (k : ℕ) : List UInt8 :=
  heldAt key (fun s => (polledBytes env s).2) slots k

/-- The connections that are not marked for deletion. -/
def undeleted (slots : List Slot) : List Slot := slots.filter fun s => !s.conn.state.delete

/-- A key is fixed by the address of a connection and the client that it serves. -/
def IsKey : Prop := ∀ s t : Slot, s.ref = t.ref → s.inc = t.inc → key s = key t

variable {key} {env : PollEnv} {m m' : Manager}

theorem isKey_ref : IsKey Slot.ref := fun _ _ href _ => href

theorem isKey_inc : IsKey Slot.inc := fun _ _ _ hinc => hinc

theorem acceptor_acceptConnection {env : AcceptEnv} (h : acceptConnection env m = .ok m') :
    m'.acceptor = m.acceptor := by
  unfold acceptConnection at h
  split_ifs at h
  · exact Except.ok.inj h ▸ rfl
  · split at h
    · exact (acceptSocket_slots h).1
    · split_ifs at h
      · exact Except.ok.inj h ▸ rfl
      · exact (acceptSocket_slots h).1

/-- The slots after a call of `cm_poll` that goes on to the sockets. -/
theorem slots_of_cmPoll (h : cmPoll env m = .ok (m', .none)) :
    ∃ ready new, env.ready = some ready ∧ env.pipe ≠ .shutdown ∧
      m'.slots = m.slots.filterMap (pollTurn env.sockets ready) ++ new ∧ m'.acceptor = m.acceptor ∧
      (new = [] ∧ m'.nextRef = m.nextRef ∨
        0 ≤ m.acceptor ∧ ∃ s, new = [s] ∧ FreshClient m s ∧ m'.nextRef = m.nextRef + 1) := by
  have hend {m₁ : Manager} {ready : ℕ → PollMask} {new : List Slot}
      (hslots : m₁.slots = (pollAll ready (beforePoll m)).slots ++ new)
      (hnew : ∀ s ∈ new, ∃ m₀, FreshClient m₀ s) :=
    @slots_leave env.sockets ready m m₁ new hslots hnew
  have hbefore (ready : ℕ → PollMask) : (pollAll ready (beforePoll m)).acceptor = m.acceptor := rfl
  have hleave (n : ℕ) (m₁ : Manager) :
      (shrink (closeSockets (serveFirst env.sockets n m₁))).acceptor = m₁.acceptor := rfl
  unfold cmPoll at h
  dsimp only at h
  split at h
  · cases (Prod.mk.inj (Except.ok.inj h)).2
  · rename_i ready hready
    split_ifs at h with hpipe hclient
    · cases (Prod.mk.inj (Except.ok.inj h)).2
    · have hacceptor : 0 ≤ m.acceptor := by
        rw [Bool.and_eq_true, decide_eq_true_eq] at hclient
        exact hclient.2
      cases haccept : acceptConnection env.accept (pollAll ready (beforePoll m)) with
      | error fault => simp [haccept, bind, Except.bind] at h
      | ok m₁ =>
        simp only [haccept, bind, Except.bind] at h
        obtain ⟨rfl, -⟩ := Prod.mk.inj (Except.ok.inj h)
        have hsame := (hleave (beforePoll m).slots.length m₁).trans
          ((acceptor_acceptConnection haccept).trans (hbefore ready))
        rcases acceptConnection_slots haccept with ⟨hs, hn⟩ | ⟨s, hs, hf, hn⟩
        · exact ⟨ready, [], hready, hpipe, hend (by rw [hs, List.append_nil]) (by simp), hsame,
            .inl ⟨rfl, hn⟩⟩
        · have hfresh : FreshClient m s :=
            ⟨hf.ref, hf.inc, hf.id, hf.state, hf.inState, hf.outState, hf.inBuf, hf.outBuf⟩
          exact ⟨ready, [s], hready, hpipe, hend hs (by simpa using ⟨m, hfresh⟩), hsame,
            .inr ⟨hacceptor, s, rfl, hfresh, hn⟩⟩
    · obtain ⟨rfl, -⟩ := Prod.mk.inj (Except.ok.inj h)
      exact ⟨ready, [], hready, hpipe, hend (List.append_nil _).symm (by simp),
        (hleave _ _).trans (hbefore ready), .inl ⟨rfl, rfl⟩⟩

/-- **All connections in a call of `cm_poll`.** The connections marked for deletion are gone with
what they held; the others read behind their input and write from the front of their output. -/
theorem cmPoll_passes (hkey : IsKey key) (hnd : (m.slots.map key).Nodup)
    (hin : ∀ s ∈ m.slots, s.conn.inBuf.CanStore) (h : cmPoll env m = .ok (m', .none)) (k : ℕ) :
    Passes (inputAt key (undeleted m.slots) k) (readAt key env m.slots k) []
        (inputAt key m'.slots k) ∧
      Passes (outputAt key (undeleted m.slots) k) [] (writtenAt key env m.slots k)
        (outputAt key m'.slots k) := by
  obtain ⟨ready, new, hready, hpipe, hslots, -, hnew⟩ := slots_of_cmPoll h
  have hempty : ∀ s ∈ new, s.conn.inBuf.contents = [] ∧ s.conn.outBuf.contents = [] := by
    rcases hnew with ⟨rfl, -⟩ | ⟨-, s, rfl, hf, -⟩
    · simp
    · simpa [RoundBuffer.contents_eq_nil_iff] using ⟨hf.inBuf, hf.outBuf⟩
  have hundeleted : undeleted m.slots = m.slots.filterMap
      (Option.guard fun s => !s.conn.state.delete) := by
    rw [List.filterMap_eq_filter]
    rfl
  have hturn : ∀ s s', pollTurn env.sockets ready s = some s' → key s' = key s := fun s s' hs' =>
    hkey _ _ (pollTurn_slotRun hs').keeps.ref (pollTurn_slotRun hs').keeps.inc
  have hguard : ∀ s s' : Slot, Option.guard (fun s => !s.conn.state.delete) s = some s' →
      key s' = key s := by
    intro s s' hs'
    rw [(Option.guard_eq_some_iff.mp hs').1]
  unfold inputAt outputAt readAt writtenAt
  rw [hslots, heldAt_append fun s hs => (hempty s hs).1, heldAt_append fun s hs => (hempty s hs).2,
    hundeleted]
  unfold heldAt
  rw [entryAt_filterMap hturn hnd, entryAt_filterMap hguard hnd]
  cases hk : entryAt key m.slots k with
  | none => exact ⟨.refl _, .refl _⟩
  | some s =>
    have hturnNone := pollTurn_eq_none_iff env.sockets ready s
    rw [Option.bind_some, Option.bind_some]
    cases hs' : pollTurn env.sockets ready s with
    | none =>
      have hdel : s.conn.state.delete = true := hturnNone.mp hs'
      have hbytes : polledBytes env s = ([], []) := by
        unfold polledBytes
        rw [(enterSlot_eq_none_iff s).mpr hdel, hready]
      have hgone : Option.guard (fun s : Slot => !s.conn.state.delete) s = none := by
        simp [Option.guard, hdel]
      rw [hgone]
      simp only [Option.elim_some, Option.elim_none, hbytes]
      exact ⟨.refl _, .refl _⟩
    | some s' =>
      have hdel : ¬ s.conn.state.delete = true := fun hdel =>
        Option.some_ne_none s' (hs'.symm.trans (hturnNone.mpr hdel))
      have hstays : Option.guard (fun s : Slot => !s.conn.state.delete) s = some s := by
        simp [Option.guard, hdel]
      rw [hstays]
      exact polledBytes_passes hready hpipe (hin s (mem_of_entryAt hk).1) hs'

end Keys

end OsTasks.PortForwarding
