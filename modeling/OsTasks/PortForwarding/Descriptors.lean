import OsTasks.PortForwarding.Calls
import OsTasks.PortForwarding.Updates

/-!
# Who owns a descriptor

Every connection is opened on a descriptor of its own. In its slot this descriptor is stored as it
is, or as its complement while no event is requested, or as `-1` after it has been closed. Every
call for the connection is made on this descriptor before it is closed, reads and writes only on
events that `poll` has just reported, and by the end of `destroy_manager` it has been closed once.

## Main definitions

* `CallOk`, `CallsOk`: what is right about a call, given the calls before it.
* `Pairs`, `Paired`: a connection and its `struct pollfd`.
* `Owned`, `Polled`: the invariant of a connection and the log of its calls.
* `Controlled`: what a controller may change between two calls into the manager.
* `ManagerStart`, `ManagerStep`, `ManagerRun`: the runs of a manager.
* `DescriptorsOk`: what holds of the descriptors of a manager and of all calls up to its end.

## Main results

* `ownedInvariant`: the slot operations keep the invariant.
* `ManagerRun.objects`: every run keeps it.
* `descriptor_ownership`: the descriptors of a whole run.
-/

namespace OsTasks.PortForwarding

/-! ### Calls in order -/

/-- The calls that close the descriptor of a connection. -/
def SysCall.closes : SysCall → Bool
  | .close _ _ | .closeUnused _ _ => true
  | _ => false

/-- What the last call of `poll` has reported about the connection of a log. -/
def lastReport : List SysCall → PollMask
  | [] => {}
  | .polled reported :: _ => (reported.head?.map Prod.snd).getD {}
  | _ :: older => lastReport older

/-- `fd` is the descriptor `own` on which the connection was opened, and is not closed yet. -/
structure Holds (older : List SysCall) (ref own : ℕ) (fd : ℤ) : Prop where
  opened : .opened ref own ∈ older
  unclosed : ∀ e ∈ older, e.closes = false
  fd : fd = own

/-- What is right about a call for a connection, given the older calls for it. -/
def CallOk (older : List SysCall) : SysCall → Prop
  | .opened _ _ => QuietLog older
  | .readv s fd _ =>
    Holds older s.ref s.own fd ∧ isAlive s.conn.inState = true ∧ (lastReport older).pollin = true
  | .writev s fd _ =>
    Holds older s.ref s.own fd ∧ isAlive s.conn.outState = true ∧ (lastReport older).pollout = true
  | .shutdown s fd _ | .close s fd => Holds older s.ref s.own fd
  | .closeUnused ref fd => ∃ own, Holds older ref own fd
  | .polled _ | .closeListener _ | .closePipe _ => True

/-- Every call of a log, the newest first, is right. -/
def CallsOk : List SysCall → Prop
  | [] => True
  | e :: older => CallOk older e ∧ CallsOk older

theorem QuietLog.closes {log : List SysCall} (h : QuietLog log) : ∀ e ∈ log, e.closes = false :=
  fun e he => h e he ▸ rfl

theorem QuietLog.callsOk {log : List SysCall} (h : QuietLog log) : CallsOk log := by
  induction log with
  | nil => trivial
  | cons e log ih =>
    obtain ⟨he, hlog⟩ := List.forall_mem_cons.mp h
    exact ⟨he ▸ trivial, ih hlog⟩

theorem QuietLog.lastReport {log : List SysCall} (h : QuietLog log) : lastReport log = {} := by
  cases log with
  | nil => rfl
  | cons e log =>
    rw [(List.forall_mem_cons.mp h).1]
    rfl

/-! ### A connection and its `struct pollfd` -/

/-- The stored descriptor of an open connection: its own one, or the complement of it while no
event is requested. -/
def Pairs (own : ℕ) (fd : Pollfd) : Prop :=
  fd.fd = own ∨ fd.fd = complement own ∧ fd.events = {}

/-- The stored descriptor of a connection. -/
structure Paired (s : Slot) : Prop where
  unclosed : s.conn.state.closed = false → s.pfd.fd = s.own ∨ s.pfd.fd = complement s.own
  closed : s.conn.state.closed = true → s.pfd.fd = -1

variable {own : ℕ} {fd : Pollfd}

theorem Pairs.getFd (h : Pairs own fd) : cmGetConnectionFd fd = own := by
  unfold cmGetConnectionFd
  rcases h with h | ⟨h, -⟩ <;> rw [h]
  · exact if_neg (Int.not_lt.mpr (Int.natCast_nonneg own))
  · rw [if_pos (complement_natCast_neg own), complement_complement]

theorem Pairs.clear (h : Pairs own fd) (mask : PollMask) :
    Pairs own (clearPollfdFlags fd mask) := by
  unfold clearPollfdFlags
  dsimp only
  split_ifs with hpark
  · refine .inr ⟨?_, hpark.1⟩
    rcases h with h | ⟨h, -⟩ <;> rw [h] at hpark ⊢
    exact absurd hpark.2 (Int.not_le.mpr (complement_natCast_neg own))
  · refine h.imp id fun ⟨hfd, hevents⟩ => ⟨hfd, ?_⟩
    rw [hevents]
    rfl

theorem Pairs.set (h : Pairs own fd) {mask : PollMask} (hmask : mask ≠ {}) :
    Pairs own (setPollfdFlags fd mask) := by
  unfold setPollfdFlags
  rw [if_neg hmask]
  exact .inl h.getFd

theorem Pairs.rearmIn (h : Pairs own fd) (conn : Connection) : Pairs own (rearmIn fd conn) := by
  unfold PortForwarding.rearmIn
  split_ifs
  · exact h.clear _
  · exact h.set (by decide)

theorem Pairs.rearmOut (h : Pairs own fd) (conn : Connection) : Pairs own (rearmOut fd conn) := by
  unfold PortForwarding.rearmOut
  split_ifs
  · exact h.clear _
  · exact h.set (by decide)

/-- A descriptor for which an event is requested is stored as it is. -/
theorem Pairs.eq_of_requested (h : Pairs own fd) (hevents : fd.events ≠ {}) : fd.fd = own :=
  h.resolve_right fun hpark => hevents hpark.2

@[simp] theorem revents_rearmIn (fd : Pollfd) (conn : Connection) :
    (rearmIn fd conn).revents = fd.revents := by
  unfold rearmIn
  split_ifs
  · exact revents_clearPollfdFlags _ _
  · exact revents_setPollfdFlags _ _

/-- Reading does not change the request for writing. -/
theorem pollout_rearmIn (fd : Pollfd) (conn : Connection) :
    (rearmIn fd conn).events.pollout = fd.events.pollout := by
  unfold rearmIn
  split_ifs
  · rw [events_clearPollfdFlags, Bool.not_false, Bool.and_true]
  · unfold setPollfdFlags
    rw [if_neg (by decide), Bool.or_false]

/-! ### The invariant of a connection -/

/-- An open connection holds its descriptor; a closed one has closed it once, and its output is
never armed again. -/
structure Owned (log : List SysCall) (s : Slot) : Prop where
  calls : CallsOk log
  opened : .opened s.ref s.own ∈ log
  unclosed : s.conn.state.closed = false → (∀ e ∈ log, e.closes = false) ∧ Pairs s.own s.pfd
  closed : s.conn.state.closed = true →
    log.countP SysCall.closes = 1 ∧ s.pfd.fd = -1 ∧ s.conn.outState.closed = true

/-- After `poll` has returned: `revents` is what was reported, and only requested events were. -/
structure Polled (log : List SysCall) (s : Slot) : Prop where
  owned : Owned log s
  report : s.pfd.revents = lastReport log
  pollin : s.pfd.revents.pollin = true → s.pfd.events.pollin = true
  pollout : s.pfd.revents.pollout = true → s.pfd.events.pollout = true

/-- Between reading and writing: the report about writing still stands. -/
structure HalfServed (log : List SysCall) (s : Slot) : Prop where
  owned : Owned log s
  report : s.pfd.revents = lastReport log
  pollout : s.pfd.revents.pollout = true → s.pfd.events.pollout = true

/-- What is left of a connection: its descriptor has been closed once. -/
structure Released (log : List SysCall) : Prop where
  calls : CallsOk log
  closed : log.countP SysCall.closes = 1

variable {log : List SysCall} {s : Slot}

theorem Owned.paired (h : Owned log s) : Paired s where
  unclosed hopen := (h.unclosed hopen).2.imp id And.left
  closed hclosed := (h.closed hclosed).2.1

theorem Owned.holds (h : Owned log s) (hopen : s.conn.state.closed = false) {fd : ℤ}
    (hfd : fd = s.own) : Holds log s.ref s.own fd :=
  ⟨h.opened, (h.unclosed hopen).1, hfd⟩

/-- An open connection after calls that do not close it. -/
theorem Owned.unclosed_append (h : Owned log s) (hopen : s.conn.state.closed = false)
    {conn : Connection} {pfd : Pollfd} (hstate : conn.state = s.conn.state)
    (hpairs : Pairs s.own pfd) (calls : List SysCall) (hcloses : ∀ e ∈ calls, e.closes = false)
    (hcalls : CallsOk (calls ++ log)) :
    Owned (calls ++ log) { s with conn := conn, pfd := pfd } where
  calls := hcalls
  opened := List.mem_append_right _ h.opened
  unclosed _ := by
    refine ⟨fun e he => ?_, hpairs⟩
    exact (List.mem_append.mp he).elim (hcloses e) ((h.unclosed hopen).1 e)
  closed hclosed := by
    rw [hstate, hopen] at hclosed
    exact absurd hclosed Bool.false_ne_true

theorem countP_closes_cons {e : SysCall} (he : e.closes = false) (log : List SysCall) :
    (e :: log).countP SysCall.closes = log.countP SysCall.closes :=
  List.countP_cons_of_neg (ne_true_of_eq_false he)

/-- The connection after its socket has been closed. -/
theorem Owned.shut (h : Owned log s) (hopen : s.conn.state.closed = false) :
    Owned (.close s (cmGetConnectionFd s.pfd) :: log) s.shut where
  calls := ⟨h.holds hopen (h.unclosed hopen).2.getFd, h.calls⟩
  opened := List.mem_cons_of_mem _ h.opened
  unclosed hclosed := absurd (show true = false from hclosed) (by decide)
  closed _ := by
    refine ⟨?_, rfl, rfl⟩
    rw [List.countP_cons_of_pos rfl, List.countP_eq_zero.mpr]
    exact fun e he => ne_true_of_eq_false ((h.unclosed hopen).1 e he)

/-! ### The slot operations -/

theorem Owned.close (h : Owned log s) :
    Owned ((closeSocket s).2.reverse ++ log) (closeSocket s).1 := by
  cases hclosed : s.conn.state.closed with
  | true =>
    have hskip : closeSocket s = (s, []) := by rw [closeSocket, isClosed, if_pos hclosed]
    rw [hskip]
    exact h
  | false =>
    have hfd := (h.unclosed hclosed).2.getFd
    cases hclose : shouldCloseSocket s.conn with
    | true =>
      have hshut : closeSocket s = (s.shut, [.close s (cmGetConnectionFd s.pfd)]) := by
        simp [closeSocket, isClosed, hclosed, hclose]
      rw [hshut]
      exact h.shut hclosed
    | false =>
      have hslot : (closeSocket s).1 = s.shutDirections := by
        simp [closeSocket, isClosed, hclosed, hclose]
      -- both directions may be shut down, and every call is made on the descriptor
      have hshutdown : ∀ e ∈ (closeSocket s).2, ∃ how, e = .shutdown s s.own how := by
        intro e he
        have htry : ∀ how, tryShutdown s (cmGetConnectionFd s.pfd) how = .shutdown s s.own how := by
          intro how
          rw [tryShutdown, hfd, if_neg (Int.not_lt.mpr (Int.natCast_nonneg s.own))]
        obtain ⟨-, ⟨hc, -⟩ | ⟨-, ⟨-, rfl⟩ | ⟨-, rfl⟩⟩⟩ := mem_closeSocket he
        · rw [hclose] at hc
          exact absurd hc Bool.false_ne_true
        · exact ⟨.rd, htry .rd⟩
        · exact ⟨.wr, htry .wr⟩
      have hcalls : ∀ calls : List SysCall, (∀ e ∈ calls, ∃ how, e = .shutdown s s.own how) →
          CallsOk (calls ++ log) := by
        intro calls hall
        induction calls with
        | nil => exact h.calls
        | cons e calls ih =>
          obtain ⟨⟨how, rfl⟩, hrest⟩ := List.forall_mem_cons.mp hall
          refine ⟨⟨List.mem_append_right _ h.opened, fun e he => ?_, rfl⟩, ih hrest⟩
          rcases List.mem_append.mp he with he | he
          · obtain ⟨how, rfl⟩ := hrest e he
            rfl
          · exact (h.unclosed hclosed).1 e he
      have hall : ∀ e ∈ (closeSocket s).2.reverse, ∃ how, e = .shutdown s s.own how :=
        fun e he => hshutdown e (List.mem_reverse.mp he)
      rw [hslot]
      refine h.unclosed_append hclosed ?_ ?_ _ (fun e he => ?_) (hcalls _ hall)
      · rfl
      · exact (h.unclosed hclosed).2
      obtain ⟨how, rfl⟩ := hall e he
      rfl

theorem Owned.arm (h : Owned log s) : Owned log (armOutput s) := by
  unfold armOutput
  split_ifs with hempty halive
  · exact h
  · have hopen : s.conn.state.closed = false := by
      by_contra hclosed
      rw [Bool.not_eq_false] at hclosed
      rw [isAlive_iff, (h.closed hclosed).2.2] at halive
      exact Bool.noConfusion halive.2.1
    exact h.unclosed_append hopen rfl ((h.unclosed hopen).2.set (by decide)) []
      (fun e he => absurd he List.not_mem_nil) h.calls
  · exact h

theorem Owned.poll (h : Owned log s) (ready : ℕ → PollMask) :
    Polled (.polled [(s.ref, (pollSlot ready s).pfd.revents)] :: log) (pollSlot ready s) where
  owned :=
    { calls := ⟨trivial, h.calls⟩
      opened := List.mem_cons_of_mem _ h.opened
      unclosed := fun hopen =>
        ⟨List.forall_mem_cons.mpr ⟨rfl, (h.unclosed hopen).1⟩, (h.unclosed hopen).2⟩
      closed := fun hclosed => by
        rw [countP_closes_cons rfl]
        exact h.closed hclosed }
  report := rfl
  pollin hin := by
    change (pollRevents (ready s.ref) s.pfd).pollin = true at hin
    unfold pollRevents at hin
    split_ifs at hin
    exact (Bool.and_eq_true_iff.mp hin).2
  pollout hout := by
    change (pollRevents (ready s.ref) s.pfd).pollout = true at hout
    unfold pollRevents at hout
    split_ifs at hout
    exact (Bool.and_eq_true_iff.mp hout).2

theorem Polled.halfServed (h : Polled log s) : HalfServed log s := ⟨h.owned, h.report, h.pollout⟩

/-- Reading is done on an event that `poll` has reported, so the descriptor is not parked. -/
theorem Polled.receive (h : Polled log s) (hopen : s.conn.state.closed = false) (r : ReadResult) :
    HalfServed ((receive r s).2.reverse ++ log) (receive r s).1 := by
  have hpairs := (h.owned.unclosed hopen).2
  unfold PortForwarding.receive
  split_ifs with hdead hread
  · exact h.halfServed
  · rw [Bool.or_eq_true, not_or, Bool.not_eq_true', Bool.not_eq_false] at hdead
    rw [Bool.and_eq_true] at hread
    have hfd : s.pfd.fd = s.own := hpairs.eq_of_requested fun hevents => by
      have hin := h.pollin hread.1
      rw [hevents] at hin
      exact Bool.false_ne_true hin
    refine ⟨h.owned.unclosed_append hopen ?_ (hpairs.rearmIn _) _ ?_ ?_, ?_, ?_⟩
    · rfl
    · exact List.forall_mem_singleton.mpr rfl
    · exact ⟨⟨h.owned.holds hopen hfd, hdead.1, h.report ▸ hread.1⟩, h.owned.calls⟩
    · exact (revents_rearmIn _ _).trans h.report
    · dsimp only
      rw [revents_rearmIn, pollout_rearmIn]
      exact h.pollout
  · refine ⟨h.owned.unclosed_append hopen rfl (hpairs.rearmIn _) []
      (fun e he => absurd he List.not_mem_nil) h.owned.calls, ?_, ?_⟩
    · exact (revents_rearmIn _ _).trans h.report
    · dsimp only
      rw [revents_rearmIn, pollout_rearmIn]
      exact h.pollout

theorem HalfServed.transmit (h : HalfServed log s) (hopen : s.conn.state.closed = false)
    (r : WriteResult) : Owned ((transmit r s).2.reverse ++ log) (transmit r s).1 := by
  have hpairs := (h.owned.unclosed hopen).2
  unfold PortForwarding.transmit
  split_ifs with hdead hwrite
  · exact h.owned
  · rw [Bool.or_eq_true, not_or, Bool.not_eq_true', Bool.not_eq_false] at hdead
    rw [Bool.and_eq_true] at hwrite
    have hfd : s.pfd.fd = s.own := hpairs.eq_of_requested fun hevents => by
      have hout := h.pollout hwrite.1
      rw [hevents] at hout
      exact Bool.false_ne_true hout
    refine h.owned.unclosed_append hopen ?_ (hpairs.rearmOut _) _ ?_ ?_
    · rfl
    · exact List.forall_mem_singleton.mpr rfl
    · exact ⟨⟨h.owned.holds hopen hfd, hdead.1, h.report ▸ hwrite.1⟩, h.owned.calls⟩
  · exact h.owned.unclosed_append hopen rfl (hpairs.rearmOut _) []
      (fun e he => absurd he List.not_mem_nil) h.owned.calls

theorem Polled.serve (h : Polled log s) (env : SocketEnv) :
    Owned ((serve env s).2.reverse ++ log) (serve env s).1 := by
  unfold PortForwarding.serve
  split_ifs with halive
  · have hopen : s.conn.state.closed = false := ((isAlive_iff _).mp halive).2.1
    have hhalf := h.receive hopen (env.read s.ref)
    have hkeep : (PortForwarding.receive (env.read s.ref) s).1.conn.state = s.conn.state := by
      unfold PortForwarding.receive
      dsimp only
      split_ifs <;> rfl
    have hsent := hhalf.transmit (hkeep ▸ hopen) (env.write s.ref)
    dsimp only
    rw [List.reverse_append, List.append_assoc]
    exact hsent
  · exact h.owned

/-- **The slot operations keep the invariant.** -/
theorem ownedInvariant : ObjectInvariant Owned Polled Released where
  close _ _ h := h.close
  arm _ _ h := h.arm
  poll ready _ _ h := h.poll ready
  serve env _ _ h := h.serve env
  weaken _ _ h := h.owned
  client malloc bufSize ref fd log hlog :=
    { owned :=
        { calls := ⟨hlog, hlog.callsOk⟩
          opened := List.mem_cons_self
          unclosed := fun _ => ⟨List.forall_mem_cons.mpr ⟨rfl, hlog.closes⟩, .inl rfl⟩
          closed := fun hclosed => absurd (show false = true from hclosed) Bool.false_ne_true }
      report := hlog.lastReport.symm
      pollin := fun _ => rfl
      pollout := fun hout => absurd (show false = true from hout) Bool.false_ne_true }
  server malloc inBufSize outBufSize id inc ref fd log hlog :=
    { calls := ⟨hlog, hlog.callsOk⟩
      opened := List.mem_cons_self
      unclosed := fun _ => ⟨List.forall_mem_cons.mpr ⟨rfl, hlog.closes⟩, .inl rfl⟩
      closed := fun hclosed => absurd (show false = true from hclosed) Bool.false_ne_true }
  unused ref fd log hlog :=
    { calls := ⟨⟨fd, List.mem_cons_self, List.forall_mem_cons.mpr ⟨rfl, hlog.closes⟩, rfl⟩, hlog,
        hlog.callsOk⟩
      closed := by
        rw [List.countP_cons_of_pos rfl, countP_closes_cons rfl,
          List.countP_eq_zero.mpr fun e he => ne_true_of_eq_false (hlog.closes e he)] }
  leave log s h hdel := ⟨h.calls, (h.closed ((shouldDelete_iff _).mp hdel).2).1⟩
  ignore log h := ⟨⟨trivial, h.calls⟩, (countP_closes_cons rfl log).trans h.closed⟩

/-- At the end of `destroy_manager` the descriptor has been closed once. -/
theorem Owned.destroy (h : Owned log s) : Released ((destroySlot s).reverse ++ log) := by
  unfold destroySlot isClosed
  cases hclosed : s.conn.state.closed with
  | true => exact ⟨h.calls, (h.closed hclosed).1⟩
  | false =>
    refine ⟨⟨h.holds hclosed (h.unclosed hclosed).2.getFd, h.calls⟩, ?_⟩
    exact ((h.shut hclosed).closed rfl).1

/-! ### What a controller may change -/

/-- A status byte after a controller has changed it: `CS_DELETE` may have been set, `CS_NEW` and
`CS_STOPPED` may have been set or cleared. -/
structure StateControlled (state state' : ConnState) : Prop where
  eof : state'.eof = state.eof
  closed : state'.closed = state.closed
  delete : state.delete = true → state'.delete = true

theorem StateControlled.refl (state : ConnState) : StateControlled state state := ⟨rfl, rfl, id⟩

theorem StateControlled.setDelete (state : ConnState) :
    StateControlled state { state with delete := true } := ⟨rfl, rfl, fun _ => rfl⟩

/-- A connection after a controller has changed it: besides the status bytes, the id and the two
buffers may be any. -/
structure Controlled (c c' : Connection) : Prop where
  state : StateControlled c.state c'.state
  inState : StateControlled c.inState c'.inState
  outState : StateControlled c.outState c'.outState

theorem Controlled.refl (c : Connection) : Controlled c c := ⟨.refl _, .refl _, .refl _⟩

theorem Owned.controlled (h : Owned log s) {conn : Connection} (hconn : Controlled s.conn conn) :
    Owned log { s with conn := conn } where
  calls := h.calls
  opened := h.opened
  unclosed hopen := h.unclosed (hconn.state.closed.symm.trans hopen)
  closed hclosed := by
    obtain ⟨hcount, hfd, hout⟩ := h.closed (hconn.state.closed.symm.trans hclosed)
    exact ⟨hcount, hfd, hconn.outState.closed.trans hout⟩

/-! ### Runs of a manager -/

/-- The managers that a run starts with: one without connections, or that of an endpoint. -/
inductive ManagerStart : Manager → Prop
  | init (bufSize : ℕ+) (acceptor : ℤ) (pipe : ℕ × ℕ) :
      ManagerStart (initManager bufSize acceptor pipe)
  | endpoint (env : StartEnv) (bufSize : ℕ+) (accepting : Bool) :
      ManagerStart (startController env bufSize accepting).manager

/-- The calls into a manager, where `accept` returns a descriptor or fails with `EINTR` or
`EAGAIN`, and what a controller does between them. -/
inductive ManagerStep : Manager → Manager → Prop
  | poll {env : PollEnv} {m m' : Manager} {cause : CloseCause} (hexpected : env.accept.Expected)
      (h : cmPoll env m = .ok (m', cause)) : ManagerStep m m'
  | connect (env : ConnectEnv) (m : Manager) (inBufSize outBufSize : ℕ+) (id : ℤ) (inc : ℕ) :
      ManagerStep m (cmConnect env m inBufSize outBufSize id inc).2
  | control (m : Manager) (f : Slot → Connection) (h : ∀ s ∈ m.slots, Controlled s.conn (f s)) :
      ManagerStep m { m with slots := m.slots.map fun s => { s with conn := f s } }

theorem ManagerStep.of_toOption {env : PollEnv} {m : Manager} {r : Manager × CloseCause}
    (h : (cmPoll env m).toOption = some r) (hexpected : env.accept.Expected) :
    ManagerStep m r.1 := by
  cases hpoll : cmPoll env m with
  | error fault =>
    rw [hpoll] at h
    exact absurd h.symm (Option.some_ne_none r)
  | ok r' =>
    rw [hpoll] at h
    obtain rfl := Option.some.inj h
    exact .poll hexpected hpoll

abbrev ManagerRun : Manager → Manager → Prop := Relation.ReflTransGen ManagerStep

variable {m m' : Manager}

theorem ManagerStart.objects (h : ManagerStart m) : Objects Owned Released m := by
  cases h with
  | init =>
    exact ⟨List.nodup_nil, fun s hs => absurd hs List.not_mem_nil,
      fun s hs => absurd hs List.not_mem_nil, fun ref hlt => absurd hlt (Nat.not_lt_zero ref),
      fun ref _ e he => absurd he List.not_mem_nil⟩
  | endpoint env bufSize accepting =>
    refine objects_single rfl rfl rfl rfl ?_
    exact
      { calls := ⟨fun e he => absurd he List.not_mem_nil, trivial⟩
        opened := List.mem_cons_self
        unclosed := fun _ => ⟨List.forall_mem_singleton.mpr rfl, .inl rfl⟩
        closed := fun hclosed => absurd (show false = true from hclosed) Bool.false_ne_true }

theorem ManagerStep.objects (hstep : ManagerStep m m') (h : Objects Owned Released m) :
    Objects Owned Released m' := by
  cases hstep with
  | poll hexpected hpoll => exact h.cmPoll ownedInvariant (.inl hexpected) hpoll
  | connect env _ inBufSize outBufSize id inc =>
    exact h.cmConnect ownedInvariant env inBufSize outBufSize id inc
  | control _ f hf =>
    refine h.change (List.map_map ..) (fun s' hs' => ?_) rfl rfl
    obtain ⟨s, hs, rfl⟩ := List.mem_map.mp hs'
    exact ⟨s, hs, rfl, fun log hown => hown.controlled (hf s hs)⟩

/-- **Every run keeps the invariant of every connection.** -/
theorem ManagerRun.objects (hrun : ManagerRun m m') (h : Objects Owned Released m) :
    Objects Owned Released m' := by
  induction hrun with
  | refl => exact h
  | tail _ hlast ih => exact hlast.objects ih

/-! ### Directions that have ended -/

/-- A direction that is not alive stays so. -/
structure Fades (s s' : Slot) : Prop where
  inState : isAlive s'.conn.inState = true → isAlive s.conn.inState = true
  outState : isAlive s'.conn.outState = true → isAlive s.conn.outState = true

theorem Fades.refl (s : Slot) : Fades s s := ⟨id, id⟩

theorem Fades.trans {t u : Slot} (h : Fades s t) (h' : Fades t u) : Fades s u :=
  ⟨h.inState ∘ h'.inState, h.outState ∘ h'.outState⟩

theorem isAlive_of_markEof {cause : RwCause} {state : ConnState}
    (h : isAlive (markEof cause state) = true) : isAlive state = true := by
  rw [isAlive_iff, closed_markEof, delete_markEof] at h
  rw [isAlive_iff]
  refine ⟨?_, h.2⟩
  by_contra heof
  rw [Bool.not_eq_false] at heof
  exact ne_true_of_eq_false h.1 ((eof_markEof cause state).mpr (.inl heof))

theorem isAlive_of_closeDirection {state : ConnState}
    (h : isAlive (closeDirection state) = true) : isAlive state = true := by
  rw [isAlive_iff, eof_closeDirection, delete_closeDirection] at h
  rw [isAlive_iff]
  refine ⟨h.1, ?_, h.2.2⟩
  by_contra hclosed
  rw [Bool.not_eq_false] at hclosed
  exact ne_true_of_eq_false h.2.1 ((closed_closeDirection state).mpr (.inl hclosed))

theorem SlotOp.fades {s' : Slot} (h : SlotOp s s') : Fades s s' := by
  cases h with
  | close =>
    rcases closeSocket_cases s with ⟨-, h⟩ | ⟨-, -, h⟩ | ⟨-, -, h⟩ <;> rw [h]
    · exact .refl s
    · exact ⟨fun halive => by simp [Slot.shut] at halive,
        fun halive => by simp [Slot.shut] at halive⟩
    · exact ⟨isAlive_of_closeDirection, isAlive_of_closeDirection⟩
  | arm =>
    unfold armOutput
    split_ifs <;> exact ⟨id, id⟩
  | poll => exact ⟨id, id⟩
  | receive r =>
    rcases receive_cases r s with h | ⟨_, _, h, -, -, rfl | ⟨_, rfl⟩⟩ <;> rw [h]
    · exact .refl s
    · exact ⟨id, id⟩
    · exact ⟨isAlive_of_markEof, id⟩
  | transmit r =>
    rcases transmit_cases r s with h | ⟨_, _, h, -, -, rfl | ⟨-, rfl⟩⟩ <;> rw [h]
    · exact .refl s
    · exact ⟨id, id⟩
    · exact ⟨id, isAlive_of_markEof⟩

theorem SlotRun.fades {s' : Slot} (h : SlotRun s s') : Fades s s' := by
  induction h with
  | refl => exact .refl s
  | tail _ hlast ih => exact ih.trans hlast.fades

theorem StateControlled.isAlive {state state' : ConnState} (h : StateControlled state state')
    (halive : isAlive state' = true) : isAlive state = true := by
  rw [isAlive_iff, h.eof, h.closed] at halive
  rw [isAlive_iff]
  refine ⟨halive.1, halive.2.1, ?_⟩
  by_contra hdel
  rw [Bool.not_eq_false] at hdel
  exact ne_true_of_eq_false halive.2.2 (h.delete hdel)

/-- A connection that is there after a step was there before, or has the next address. -/
theorem ManagerStep.fades (hstep : ManagerStep m m') {s' : Slot} (hs' : s' ∈ m'.slots) :
    (∃ s ∈ m.slots, s.ref = s'.ref ∧ Fades s s') ∨ s'.ref = m.nextRef := by
  cases hstep with
  | poll _ hpoll =>
    rcases mem_slots_poll hpoll hs' with ⟨s, hs, -, hrun⟩ | ⟨hfresh, -⟩
    · exact .inl ⟨s, hs, hrun.keeps.ref.symm, hrun.fades⟩
    · exact .inr hfresh.ref
  | connect env _ inBufSize outBufSize id inc =>
    rcases cmConnect_slots env m inBufSize outBufSize id inc with
      ⟨-, hslots, -⟩ | ⟨-, s, hslots, hfresh, -⟩ <;> rw [hslots] at hs'
    · exact .inl ⟨s', hs', rfl, .refl s'⟩
    · rcases List.mem_append.mp hs' with hmem | hmem
      · exact .inl ⟨s', hmem, rfl, .refl s'⟩
      · exact .inr (List.mem_singleton.mp hmem ▸ hfresh.ref)
  | control _ f hf =>
    obtain ⟨s, hs, rfl⟩ := List.mem_map.mp hs'
    exact .inl ⟨s, hs, rfl, (hf s hs).inState.isAlive, (hf s hs).outState.isAlive⟩

theorem ManagerStep.nextRef (hstep : ManagerStep m m') : m.nextRef ≤ m'.nextRef := by
  cases hstep with
  | poll _ hpoll => exact nextRef_poll hpoll
  | connect env _ inBufSize outBufSize id inc =>
    rcases cmConnect_slots env m inBufSize outBufSize id inc with ⟨-, -, h⟩ | ⟨-, -, -, -, h⟩
    · exact h
    · omega
  | control => exact Nat.le_refl _

/-- **A direction of a connection that has stopped being alive is never alive again.** -/
theorem ManagerRun.fades (h : Objects Owned Released m) (hrun : ManagerRun m m') {s s' : Slot}
    (hs : s ∈ m.slots) (hs' : s' ∈ m'.slots) (href : s'.ref = s.ref) : Fades s s' := by
  have hboth : m.nextRef ≤ m'.nextRef ∧ ∀ s' ∈ m'.slots, s'.ref = s.ref → Fades s s' := by
    clear hs' href s'
    induction hrun with
    | refl =>
      refine ⟨Nat.le_refl _, fun s' hs' href => ?_⟩
      rw [eq_of_ref_eq h.nodup hs' hs href]
      exact .refl s
    | tail _ hlast ih =>
      refine ⟨ih.1.trans hlast.nextRef, fun s' hs' href => ?_⟩
      rcases hlast.fades hs' with ⟨t, ht, hreft, hfades⟩ | hfresh
      · exact (ih.2 t ht (hreft.trans href)).trans hfades
      · have hlt := h.allocated s hs
        have hle := ih.1
        omega
  exact hboth.2 s' hs' href

/-! ### The descriptors of a run -/

/-- What holds of the descriptors of a manager and of all calls up to the end of
`destroy_manager`. -/
structure DescriptorsOk (m : Manager) : Prop where
  paired : ∀ s ∈ m.slots, .opened s.ref s.own ∈ m.log ∧ Paired s
  calls : ∀ ref, CallsOk (callsOf ref (destroyManager m))
  once : ∀ ref fd, .opened ref fd ∈ destroyManager m →
    (callsOf ref (destroyManager m)).countP SysCall.closes = 1

theorem mem_callsOf {ref : ℕ} {e e' : SysCall} {log : List SysCall} (he : e ∈ log)
    (hrestrict : e.restrict ref = some e') : e' ∈ callsOf ref log :=
  List.mem_filterMap.mpr ⟨e, he, hrestrict⟩

theorem opened_mem_of_callsOf {ref r fd : ℕ} {log : List SysCall}
    (h : .opened r fd ∈ callsOf ref log) : .opened r fd ∈ log := by
  obtain ⟨e, he, hrestrict⟩ := List.mem_filterMap.mp h
  cases e <;> simp only [SysCall.restrict, reduceCtorEq, Option.some.injEq, and_false,
    Option.ite_none_right_eq_some] at hrestrict
  exact hrestrict.2 ▸ he

theorem aboutOnly_destroySlot (s : Slot) : AboutOnly s.ref (destroySlot s) := by
  intro e he r
  unfold destroySlot at he
  dsimp only at he
  split_ifs at he
  · exact absurd he List.not_mem_nil
  · rw [List.mem_singleton.mp he]
    rfl

/-- The calls of `destroy_manager` for one connection. -/
theorem callsOf_destroyManager (m : Manager) (ref : ℕ) :
    callsOf ref (destroyManager m) =
      (callsOf ref (m.slots.flatMap destroySlot)).reverse ++ callsOf ref m.log := by
  unfold destroyManager
  rw [callsOf_append, callsOf_reverse, callsOf_append]
  congr 2
  split <;> rfl

theorem Objects.released (h : Objects Owned Released m) {ref : ℕ} (hlt : ref < m.nextRef) :
    Released (callsOf ref (destroyManager m)) := by
  rw [callsOf_destroyManager]
  by_cases hmem : ref ∈ m.slots.map Slot.ref
  · obtain ⟨s, hs, rfl⟩ := List.mem_map.mp hmem
    rw [callsOf_flatMap (f := fun s => (s, destroySlot s)) aboutOnly_destroySlot h.nodup hs]
    exact (h.present s hs).destroy
  · rw [callsOf_flatMap_of_notMem (f := fun s => (s, destroySlot s)) aboutOnly_destroySlot hmem]
    exact h.gone ref hlt hmem

theorem Objects.quiet (h : Objects Owned Released m) {ref : ℕ} (hle : m.nextRef ≤ ref) :
    QuietLog (callsOf ref (destroyManager m)) := by
  have hmem : ref ∉ m.slots.map Slot.ref := by
    intro hmem
    obtain ⟨s, hs, rfl⟩ := List.mem_map.mp hmem
    have hlt := h.allocated s hs
    omega
  rw [callsOf_destroyManager,
    callsOf_flatMap_of_notMem (f := fun s => (s, destroySlot s)) aboutOnly_destroySlot hmem]
  exact h.fresh ref hle

theorem Objects.descriptorsOk (h : Objects Owned Released m) : DescriptorsOk m where
  paired s hs := ⟨opened_mem_of_callsOf (h.present s hs).opened, (h.present s hs).paired⟩
  calls ref := by
    rcases Nat.lt_or_ge ref m.nextRef with hlt | hle
    · exact (h.released hlt).calls
    · exact (h.quiet hle).callsOk
  once ref fd hopened := by
    rcases Nat.lt_or_ge ref m.nextRef with hlt | hle
    · exact (h.released hlt).closed
    · exact absurd (h.quiet hle _ (mem_callsOf hopened (if_pos rfl))) SysCall.noConfusion

/-- **The manager owns its descriptors.** In every state of a run every connection is paired with
its own descriptor, every call up to the end of `destroy_manager` is made on the descriptor of its
connection while it is open, reads and writes only on reported events and living directions, which
stay ended once they have ended, and every descriptor is closed exactly once. -/
theorem descriptor_ownership {m₀ m : Manager} (hstart : ManagerStart m₀) (hrun : ManagerRun m₀ m) :
    DescriptorsOk m ∧ ∀ m', ManagerRun m m' → ∀ s ∈ m.slots, ∀ s' ∈ m'.slots, s'.ref = s.ref →
      Fades s s' := by
  have hobjects := hrun.objects hstart.objects
  exact ⟨hobjects.descriptorsOk, fun m' hrun' s hs s' hs' href => hrun'.fades hobjects hs hs' href⟩

/-- A client connects on descriptor `7`, a connection to the service is opened on `9`, the client
ends its input and is deleted: its socket is closed, and the other connection moves to the front. -/
theorem descriptor_ownership_clientLeaves :
    ∃ m, ManagerRun (initManager 10240 3 (4, 5)) m ∧
      m.slots.map (fun s => (s.ref, s.own)) = [(1, 9)] ∧ DescriptorsOk m := by
  let deleteClient := fun s : Slot =>
    if s.ref = 0 then { s.conn with state := { s.conn.state with delete := true } } else s.conn
  have hdelete : ∀ s, Controlled s.conn (deleteClient s) := fun s => by
    dsimp only [deleteClient]
    split_ifs
    · exact ⟨.setDelete _, .refl _, .refl _⟩
    · exact .refl _
  have hquiet : quietPoll.accept.Expected := .inr (rfl : Errno.eagain = .eagain)
  have hcomputed : ((cmPoll (clientComes 7) (initManager 10240 3 (4, 5))).toOption.bind fun r₁ =>
      (cmPoll (tunnelReads []) (cmConnect samplePump.connect r₁.1 10240 10240 1 0).2).toOption.bind
        fun r₂ => (cmPoll quietPoll { r₂.1 with
          slots := r₂.1.slots.map fun s => { s with conn := deleteClient s } }).toOption.map
            fun r₃ => r₃.1.slots.map fun s => (s.ref, s.own)) = some [(1, 9)] := by
    decide +kernel
  obtain ⟨r₁, h₁, hcomputed⟩ := Option.bind_eq_some_iff.mp hcomputed
  obtain ⟨r₂, h₂, hcomputed⟩ := Option.bind_eq_some_iff.mp hcomputed
  obtain ⟨r₃, h₃, hslots⟩ := Option.map_eq_some_iff.mp hcomputed
  have hrun : ManagerRun (initManager 10240 3 (4, 5)) r₃.1 :=
    .tail (.tail (.tail (.tail (.single (.of_toOption h₁ trivial))
      (.connect samplePump.connect r₁.1 10240 10240 1 0)) (.of_toOption h₂ hquiet))
      (.control r₂.1 deleteClient fun s _ => hdelete s)) (.of_toOption h₃ hquiet)
  exact ⟨r₃.1, hrun, hslots, (descriptor_ownership (.init 10240 3 (4, 5)) hrun).1⟩

end OsTasks.PortForwarding
