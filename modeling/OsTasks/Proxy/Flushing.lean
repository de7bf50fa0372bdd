import OsTasks.Proxy.SlotTable

/-!
# Flushing before shutting down

When a direction of a proxied client reads the end of its input, `transfer` shuts its output down
and returns `-1`, whatever is left in the buffer. The bytes that were read have all been written
exactly if the buffer was empty at that read. (What is stored behind unread bytes that wrap is not
in order to begin with; see `intact_run`.)

## Main definitions

* `dirCalls`: the calls of one direction of a client, in order.
* `Flows`: the bytes written and unread are the bytes read.

## Main results

* `Life.flows`: every direction of every client flows.
* `flushed_iff`: what has been written when a direction is shut down after the end of its input.
-/

namespace OsTasks.Proxy

open PortForwarding (Pollfd PollMask)

/-! ### The calls of a direction -/

/-- The call of an event, if it is one of the direction. -/
def Event.callOf (dir : Dir) : Event → Option IoCall
  | .call _ d c => if d = dir then some c else none
  | .connected .. | .disconnected .. | .closeUnused _ => none

/-- The calls of one direction of a client, the oldest first. -/
def dirCalls (dir : Dir) (log : List Event) : List IoCall :=
  (log.filterMap (Event.callOf dir)).reverse

theorem dirCalls_calls (ref : ℕ) (dir : Dir) (calls : List IoCall) (log : List Event) :
    dirCalls dir ((calls.map (Event.call ref dir)).reverse ++ log) = dirCalls dir log ++ calls := by
  have hcalls : ((calls.map (Event.call ref dir)).reverse).filterMap (Event.callOf dir) =
      calls.reverse := by
    rw [List.filterMap_reverse, List.filterMap_map]
    congr 1
    exact (List.filterMap_congr fun c _ => if_pos rfl).trans List.filterMap_some
  rw [dirCalls, List.filterMap_append, List.reverse_append, hcalls, List.reverse_reverse, dirCalls]

theorem dirCalls_calls_of_ne {ref : ℕ} {dir d : Dir} (h : dir ≠ d) (calls : List IoCall)
    (log : List Event) :
    dirCalls d ((calls.map (Event.call ref dir)).reverse ++ log) = dirCalls d log := by
  have hcalls : ((calls.map (Event.call ref dir)).reverse).filterMap (Event.callOf d) = [] := by
    refine List.filterMap_eq_nil_iff.mpr fun e he => ?_
    rw [List.mem_reverse, List.mem_map] at he
    obtain ⟨c, -, rfl⟩ := he
    exact if_neg h
  rw [dirCalls, List.filterMap_append, hcalls, List.nil_append, dirCalls]

/-- A direction has ended if one of its calls is a shutdown. -/
theorem dirEnded_of_mem {dir : Dir} {log : List Event} {c : IoCall} (h : c ∈ dirCalls dir log)
    (hc : c.isShutdown = true) : DirEnded dir log := by
  rw [dirCalls, List.mem_reverse, List.mem_filterMap] at h
  obtain ⟨e, he, heq⟩ := h
  refine ⟨e, he, ?_⟩
  cases e with
  | call ref d c' =>
    rw [Event.callOf] at heq
    split_ifs at heq with hd
    obtain rfl := Option.some.inj heq
    exact ⟨hd, hc⟩
  | connected => exact nomatch heq
  | disconnected => exact nomatch heq
  | closeUnused => exact nomatch heq

/-! ### The bytes of a direction -/

/-- The bytes that calls have read. -/
def readBytes (calls : List IoCall) : List UInt8 := calls.flatMap IoCall.read

/-- The bytes that calls have written. -/
def writtenBytes (calls : List IoCall) : List UInt8 := calls.flatMap IoCall.written

/-- If no byte has been stored behind wrapped ones, then the bytes written and unread are the bytes
read. -/
def Flows (calls : List IoCall) (buf : RoundBuffer) : Prop :=
  (∀ c ∈ calls, c.Stores) →
    buf.Bounded ∧ writtenBytes calls ++ buf.contents = readBytes calls

theorem Flows.transferred {calls : List IoCall} {buf : RoundBuffer} (h : Flows calls buf)
    {t : Transferred} (ht : buf.Bounded → t.Moves buf) : Flows (calls ++ t.calls) t.buf := by
  intro hstores
  obtain ⟨hbounded, hflow⟩ := h fun c hc => hstores c (List.mem_append_left _ hc)
  obtain ⟨hbounded', hmoved⟩ := ht hbounded fun c hc => hstores c (List.mem_append_right _ hc)
  refine ⟨hbounded', ?_⟩
  rw [writtenBytes, readBytes, List.flatMap_append, List.flatMap_append, List.append_assoc]
  change writtenBytes calls ++ (t.written ++ t.buf.contents) = readBytes calls ++ t.read
  rw [hmoved, ← List.append_assoc, hflow]

/-- What is known of a direction that has been shut down after the end of its input: the shutdown
follows the read at once, and all bytes read before have been written if the buffer was empty, and
only then. -/
def FlushedAt (calls : List IoCall) : Prop :=
  ∀ before fd rest, calls = before ++ .shutdown fd .wr .eof :: rest →
    rest = [] ∧ ∃ first fd' buf, before = first ++ [.readv fd' buf [] .eof] ∧
      ((∀ c ∈ calls, c.Stores) → (writtenBytes before = readBytes before ↔ buf.length = 0))

/-- Behind a shutdown there is nothing. -/
theorem eq_nil_of_shutdownLast {before rest : List IoCall} {c : IoCall}
    (h : ShutdownLast (before ++ c :: rest)) (hc : c.isShutdown = true) : rest = [] := by
  induction before with
  | nil => exact h.1 hc
  | cons b before ih => exact ih h.2

section Direction

variable {o : Proxied} {env : SocketEnv} {dir d : Dir}

/-- The calls of an active direction are no shutdowns. -/
theorem Coherent.noShutdown (h : Coherent o) (hactive : o.client.active dir = true) :
    ∀ c ∈ dirCalls dir o.log, c.isShutdown = false := by
  intro c hc
  by_contra hshut
  have hended := (h.ended dir).mp (dirEnded_of_mem hc (Bool.eq_true_of_not_eq_false hshut))
  exact Bool.false_ne_true (hended.symm.trans hactive)

theorem dirCalls_after (t : Transferred) :
    dirCalls dir (o.after dir t).log = dirCalls dir o.log ++ t.calls :=
  dirCalls_calls o.ref dir t.calls o.log

theorem dirCalls_other_after (t : Transferred) :
    dirCalls dir.other (o.after dir t).log = dirCalls dir.other o.log :=
  dirCalls_calls_of_ne dir.other_ne.symm t.calls o.log

@[simp] theorem buf_after (t : Transferred) : (o.after dir t).client.buf dir = t.buf := by
  cases dir <;> rfl

@[simp] theorem buf_other_after (t : Transferred) :
    (o.after dir t).client.buf dir.other = o.client.buf dir.other := by
  cases dir <;> rfl

/-- Serving a direction. -/
theorem flows_direction (h : ∀ d, Flows (dirCalls d o.log) (o.client.buf d)) (d : Dir) :
    Flows (dirCalls d (o.direction env dir).log) ((o.direction env dir).client.buf d) := by
  rw [Proxied.direction]
  split_ifs
  · rcases d.eq_or dir with rfl | rfl
    · rw [dirCalls_after, buf_after]
      exact (h d).transferred fun hb => moves_transfer hb _ _ _ _
    · rw [dirCalls_other_after, buf_other_after]
      exact h dir.other
  · exact h d

/-- A transfer of an active direction. -/
theorem flushedAt_transfer {calls : List IoCall} (hno : ∀ c ∈ calls, c.isShutdown = false)
    {buf : RoundBuffer} (hflows : Flows calls buf) (r : PortForwarding.ReadResult)
    (w : PortForwarding.WriteResult) (inFd outFd : Pollfd)
    (hlast : ShutdownLast (transfer r w inFd outFd buf).calls) :
    FlushedAt (calls ++ (transfer r w inFd outFd buf).calls) := by
  intro before fd rest heq
  have hshutdownLast := shutdownLast_append hno hlast
  rw [heq] at hshutdownLast
  obtain rfl := eq_nil_of_shutdownLast hshutdownLast rfl
  refine ⟨rfl, ?_⟩
  rcases transfer_cases r w inFd outFd buf with
    ⟨cause, -, -, ht⟩ | ⟨reads, hreads, ⟨cause, buf', -, -, ht⟩ | ⟨writes, buf', hwrites, ht⟩⟩
  · rw [ht] at heq ⊢
    dsimp only at heq ⊢
    rw [List.append_cons] at heq
    obtain ⟨rfl, hshutdown⟩ := List.append_inj' heq rfl
    obtain rfl : cause = .eof := (IoCall.shutdown.inj (List.singleton_inj.mp hshutdown)).2.2
    refine ⟨calls, inFd.fd, buf, rfl, fun hstores => ?_⟩
    obtain ⟨-, hflow⟩ := hflows fun c hc => hstores c (List.mem_append_left _ hc)
    have hwritten : writtenBytes (calls ++ [.readv inFd.fd buf [] .eof]) = writtenBytes calls := by
      simp [writtenBytes, IoCall.written]
    have hread : readBytes (calls ++ [.readv inFd.fd buf [] .eof]) = readBytes calls := by
      simp [readBytes, IoCall.read]
    rw [hwritten, hread, ← hflow, List.self_eq_append_right, ← List.length_eq_zero_iff,
      RoundBuffer.length_contents]
  · rw [ht] at heq
    dsimp only at heq
    rw [List.append_cons, ← List.append_assoc] at heq
    have hshutdown := (List.append_inj' heq rfl).2
    exact absurd (IoCall.shutdown.inj (List.singleton_inj.mp hshutdown)).2.1 (by decide)
  · have hreadNo : ∀ c ∈ reads, c.isShutdown = false := by
      rcases hreads with rfl | ⟨-, bytes, rfl⟩
      · exact fun c hc => absurd hc List.not_mem_nil
      · exact fun c hc => by rw [List.mem_singleton.mp hc]; rfl
    have hwriteNo : ∀ c ∈ writes, c.isShutdown = false := by
      rcases hwrites with rfl | ⟨-, bytes, rfl⟩
      · exact fun c hc => absurd hc List.not_mem_nil
      · exact fun c hc => by rw [List.mem_singleton.mp hc]; rfl
    have hcallsNo : ∀ c ∈ (transfer r w inFd outFd buf).calls, c.isShutdown = false := by
      intro c hc
      rcases ht with ht | ht <;> rw [ht] at hc
      · exact (List.mem_append.mp hc).elim (hreadNo c) (hwriteNo c)
      · rcases List.mem_append.mp hc with hc | hc
        · exact (List.mem_append.mp hc).elim (hreadNo c) (hwriteNo c)
        · rw [List.mem_singleton.mp hc]
          rfl
    have hmem : IoCall.shutdown fd .wr .eof ∈ calls ++ (transfer r w inFd outFd buf).calls := by
      rw [heq]
      exact List.mem_append_right _ List.mem_cons_self
    exact absurd rfl (ne_true_of_eq_false
      ((List.mem_append.mp hmem).elim (hno _) (hcallsNo _)))

/-- Serving a direction. -/
theorem flushedAt_direction (hcoherent : Coherent o)
    (hready : (o.outFd dir).revents.pollout = true → (o.outFd dir).events.pollout = true)
    (hflows : ∀ d, Flows (dirCalls d o.log) (o.client.buf d))
    (h : ∀ d, FlushedAt (dirCalls d o.log)) (d : Dir) :
    FlushedAt (dirCalls d (o.direction env dir).log) := by
  rw [Proxied.direction]
  split_ifs with hactive
  · rcases d.eq_or dir with rfl | rfl
    · rw [dirCalls_after]
      have hin := hcoherent.fits d
      have hout := hcoherent.fits d.other
      rw [inOwn_other, inFd_other] at hout
      have ht := handled_transfer hin hout ((hcoherent.pollin d).trans hactive) hready
        (env.read o.ref d) (env.write o.ref d) (o.client.buf d)
      exact flushedAt_transfer (hcoherent.noShutdown hactive) (hflows d) _ _ _ _ ht.last
    · rw [dirCalls_other_after]
      exact h dir.other
  · exact h d

end Direction

/-! ### Runs -/

/-- Both directions of a client flow, and are flushed as far as `FlushedAt` says. -/
structure Flowing (o : Proxied) : Prop where
  flows : ∀ d, Flows (dirCalls d o.log) (o.client.buf d)
  flushed : ∀ d, FlushedAt (dirCalls d o.log)

theorem flowing_new (ref : ℕ) (mem : (ℕ → UInt8) × (ℕ → UInt8)) (srcFd dstFd : ℕ)
    (oldSrc oldDst : Pollfd) : Flowing (newProxied ref mem srcFd dstFd oldSrc oldDst) where
  flows d _ := by
    cases d with
    | srcDst => exact ⟨bounded_rbInit mem.1 (by decide), rfl⟩
    | dstSrc => exact ⟨bounded_rbInit mem.2 (by decide), rfl⟩
  flushed d before fd rest heq := by
    have hnil : [] = before ++ .shutdown fd .wr .eof :: rest := heq
    simp at hnil

/-- What a round does to a client that is connected. -/
theorem Flowing.serve {o : Proxied} (h : Flowing o) (hcoherent : Coherent o) (src dst : PollMask)
    (env : SocketEnv) : Flowing ((o.polled src dst).serve env) := by
  have hflows : ∀ d, Flows (dirCalls d (o.polled src dst).log)
      ((o.polled src dst).client.buf d) := h.flows
  have hfirst : ∀ d, FlushedAt (dirCalls d ((o.polled src dst).direction env .srcDst).log) :=
    flushedAt_direction (hcoherent.polled src dst)
      (fun hrev => pollRevents_pollout (p := o.dst) hrev) hflows h.flushed
  refine ⟨flows_direction (flows_direction hflows), ?_⟩
  exact flushedAt_direction (hcoherent.first src dst env) (hcoherent.second_ready src dst env)
    (flows_direction hflows) hfirst

theorem Life.flowing {o : Proxied} (h : Life o) : Flowing o := by
  induction h with
  | new ref mem srcFd dstFd oldSrc oldDst => exact flowing_new ref mem srcFd dstFd oldSrc oldDst
  | round hlife src dst env _ ih => exact ih.serve hlife.coherent src dst env

theorem Ended.flushedAt {log : List Event} (h : Ended log) (d : Dir) :
    FlushedAt (dirCalls d log) := by
  obtain ⟨o, hlife, src, dst, env, -, rfl⟩ := h
  exact (hlife.flowing.serve hlife.coherent src dst env).flushed d

/-- **Every run.** -/
theorem Reach.flushedAt {s : State} (h : Reach s) (ref : ℕ) (d : Dir) :
    FlushedAt (dirCalls d (about ref s.trace)) := by
  obtain ⟨objs, hshows, hlife⟩ := h.shows
  rcases hshows.log_cases ref with ⟨o, ho, -, hlog⟩ | ⟨hended, -⟩ | hnone
  · rw [hlog]
    exact (hlife o ho).flowing.flushed d
  · exact hended.flushedAt d
  · rw [hnone]
    intro before fd rest heq
    have hnil : [] = before ++ .shutdown fd .wr .eof :: rest := heq
    simp at hnil

/-- A client that is still connected has no active direction that has ended. -/
theorem Reach.inactive {s : State} (h : Reach s) {ref slot : ℕ} (hslot : slot < s.clientsCount)
    {c : Client} (hclient : s.clients slot = some ref) (hheap : s.heap ref = some c) {d : Dir}
    (hended : DirEnded d (about ref s.trace)) : c.active d = false := by
  obtain ⟨objs, hshows, hlife⟩ := h.shows
  obtain ⟨o, ⟨hrow, hheap', hlog⟩, hcoherent, -⟩ := hshows.slotOk hlife hslot
  obtain rfl : o.ref = ref := Option.some.inj ((Row.mk.inj hrow).1.symm.trans hclient)
  obtain rfl : o.client = c := Option.some.inj (hheap'.symm.trans hheap)
  exact (hcoherent.ended d).mp (hlog ▸ hended)

/-- **Flushing.** In every run, when a direction has been shut down after the end of its input, the
shutdown has come right after the read that found the end. If nothing had been stored behind unread
bytes that wrap, then all bytes read had been written exactly if the buffer was empty at that read.
The active bit of the direction is cleared, and when both are, the client is disconnected. -/
theorem flushed_iff {s : State} (h : Reach s) (ref : ℕ) (dir : Dir) {before rest : List IoCall}
    {fd : ℤ}
    (hcalls : dirCalls dir (about ref s.trace) = before ++ .shutdown fd .wr .eof :: rest) :
    (∃ first fd' buf, before = first ++ [.readv fd' buf [] .eof] ∧
      ((∀ c ∈ before, c.Stores) → (writtenBytes before = readBytes before ↔ buf.length = 0))) ∧
    (∀ slot < s.clientsCount, ∀ c, s.clients slot = some ref → s.heap ref = some c →
      c.active dir = false) ∧
    ((∀ d, DirEnded d (about ref s.trace)) →
      (about ref s.trace).countP Event.isDisconnected = 1) := by
  obtain ⟨rfl, first, fd', buf, hbefore, hflushed⟩ := h.flushedAt ref dir before fd rest hcalls
  have hended : DirEnded dir (about ref s.trace) := by
    refine dirEnded_of_mem (c := .shutdown fd .wr .eof) ?_ rfl
    rw [hcalls]
    exact List.mem_append_right _ List.mem_cons_self
  refine ⟨⟨first, fd', buf, hbefore, fun hstores => hflushed fun c hc => ?_⟩,
    fun slot hslot c hclient hheap => h.inactive hslot hclient hheap hended, ?_⟩
  · rw [hcalls] at hc
    rcases List.mem_append.mp hc with hc | hc
    · exact hstores c hc
    · rw [List.mem_singleton.mp hc]
      exact trivial
  · obtain ⟨objs, hshows, hlife⟩ := h.shows
    exact (hshows.logOk hlife ref).2.mpr

/-- A read that finds the end of the input finds the buffer empty. -/
def IoCall.EofEmpty : IoCall → Prop
  | .readv _ buf _ .eof => buf.length = 0
  | .readv .. | .writev .. | .shutdown .. | .arm _ => True

instance : DecidablePred IoCall.EofEmpty := fun c =>
  match c with
  | .readv _ buf _ .eof => inferInstanceAs (Decidable (buf.length = 0))
  | .readv _ _ _ .none | .readv _ _ _ .error | .writev .. | .shutdown .. | .arm _ =>
    inferInstanceAs (Decidable True)

/-- A shutdown for writing after the end of the input. -/
def IoCall.isEofShutdown : IoCall → Bool
  | .shutdown _ .wr .eof => true
  | .shutdown .. | .readv .. | .writev .. | .arm _ => false

theorem exists_of_isEofShutdown {calls : List IoCall}
    (h : calls.any IoCall.isEofShutdown = true) :
    ∃ before fd rest, calls = before ++ .shutdown fd .wr .eof :: rest := by
  obtain ⟨c, hc, heof⟩ := List.any_eq_true.mp h
  obtain ⟨fd, rfl⟩ : ∃ fd, c = .shutdown fd .wr .eof := by
    match c, heof with
    | .shutdown fd .wr .eof, _ => exact ⟨fd, rfl⟩
  obtain ⟨before, rest, heq⟩ := List.append_of_mem hc
  exact ⟨before, fd, rest, heq⟩

/-- A round for the client in the first slot: what `poll` finds ready of its two sockets, and what
they answer in the direction from client to target. -/
def transferRound (src dst : PollMask) (read : PortForwarding.ReadResult)
    (write : PortForwarding.WriteResult) : RoundEnv where
  ready := fun k => if k = srcIndex 0 then src else if k = dstIndex 0 then dst else {}
  accept := { accept := none, socket := none, connect := false, close := true, malloc := none }
  sockets :=
    { read := fun _ dir => if dir = .srcDst then read else .error .eagain
      write := fun _ dir => if dir = .srcDst then write else .error .eagain }

/-- A client sends three bytes, which are read. -/
def threeBytes : List RoundEnv :=
  [acceptRound 4, transferRound { pollin := true } {} (.bytes [1, 2, 3]) (.error .eagain)]

/-- The client has closed its side. -/
def endOfInput : RoundEnv := transferRound { pollin := true } {} (.bytes []) (.error .eagain)

/-- The bytes are written before the end of the input is read. -/
theorem flushed_iff_written : ∃ s, Reach s ∧ ∃ before fd rest,
    dirCalls .srcDst (about 0 s.trace) = before ++ .shutdown fd .wr .eof :: rest ∧
      readBytes (dirCalls .srcDst (about 0 s.trace)) = [1, 2, 3] ∧
      writtenBytes before = readBytes before := by
  have hrun : ((rounds (threeBytes ++
      [transferRound {} { pollout := true } (.error .eagain) (.taken 3), endOfInput])
      (start 3)).map fun s =>
        let calls := dirCalls .srcDst (about 0 s.trace)
        (readBytes calls, calls.any IoCall.isEofShutdown,
          decide (∀ c ∈ calls, c.Stores ∧ c.EofEmpty))) = some ([1, 2, 3], true, true) := by
    decide +kernel
  obtain ⟨s, hs, heq⟩ := Option.map_eq_some_iff.mp hrun
  obtain ⟨hread, heq⟩ := Prod.mk.inj heq
  obtain ⟨heof, hall⟩ := Prod.mk.inj heq
  have hall := of_decide_eq_true hall
  have hreach := (Reach.start 3).rounds hs
  obtain ⟨before, fd, rest, hcalls⟩ := exists_of_isEofShutdown heof
  obtain ⟨⟨first, fd', buf, hbefore, hflushed⟩, -⟩ := flushed_iff hreach 0 .srcDst hcalls
  refine ⟨s, hreach, before, fd, rest, hcalls, hread, (hflushed fun c hc => ?_).mpr ?_⟩
  · exact (hall c (hcalls ▸ List.mem_append_left _ hc)).1
  · refine (hall (.readv fd' buf [] .eof) ?_).2
    rw [hcalls, hbefore]
    simp

/-- A client sends three bytes and closes its side at once. The bytes are read in one round, and
the target is asked for from then on; but before it is ready, the end of the input is read, and the
target is shut down without having got a byte. -/
theorem not_flushed_unwritten : ¬ ∀ s, Reach s → ∀ ref dir before fd rest,
    dirCalls dir (about ref s.trace) = before ++ .shutdown fd .wr .eof :: rest →
      writtenBytes before = readBytes before := by
  intro hall
  have hrun : ((rounds (threeBytes ++ [endOfInput]) (start 3)).map fun s =>
      let calls := dirCalls .srcDst (about 0 s.trace)
      (readBytes calls, writtenBytes calls, calls.any IoCall.isEofShutdown)) =
        some ([1, 2, 3], [], true) := by
    decide +kernel
  obtain ⟨s, hs, heq⟩ := Option.map_eq_some_iff.mp hrun
  obtain ⟨hread, heq⟩ := Prod.mk.inj heq
  obtain ⟨hwritten, heof⟩ := Prod.mk.inj heq
  have hreach := (Reach.start 3).rounds hs
  obtain ⟨before, fd, rest, hcalls⟩ := exists_of_isEofShutdown heof
  obtain ⟨rfl, -⟩ := hreach.flushedAt 0 .srcDst before fd rest hcalls
  have heq := hall s hreach 0 .srcDst before fd [] hcalls
  rw [hcalls] at hread hwritten
  have hread' : readBytes before = [1, 2, 3] := by
    simpa [readBytes, IoCall.read] using hread
  have hwritten' : writtenBytes before = [] := by
    simpa [writtenBytes, IoCall.written] using hwritten
  rw [hread', hwritten'] at heq
  exact absurd heq (by decide)

end OsTasks.Proxy
