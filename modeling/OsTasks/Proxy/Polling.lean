import OsTasks.Proxy.Flushing

/-!
# What the proxy polls, and the bytes of its clients

Whenever the main loop polls, the entries of `fds` request exactly what the transfer loop would act
on: `POLLIN` of the socket that an active direction reads, and `POLLOUT` of the socket that it
writes as long as it has unread bytes. (`POLLIN` is requested also when the buffer is full.) And in
every run the bytes of a client stay in order, whichever slots it is moved to.

## Main definitions

* `Requests`: `POLLOUT` is requested exactly as long as it is wanted.

## Main results

* `polled_iff`: what is polled.
* `proxied_conserves_bytes`: the bytes of a client in a whole run.
-/

namespace OsTasks.Proxy

open PortForwarding (Pollfd PollMask ReadResult WriteResult clearPollfdFlags setPollfdFlags
  complement)

/-! ### One direction -/

section Transfer

variable {r : ReadResult} {w : WriteResult} {inFd outFd : Pollfd} {buf : RoundBuffer}

theorem pollout_readPart (hended : (readPart r inFd outFd buf).ended = true) :
    (readPart r inFd outFd buf).outFd.events.pollout = false := by
  rcases readPart_cases r inFd outFd buf with heq | ⟨-, -, heq⟩ | ⟨cause, -, -, heq⟩ <;>
    rw [heq] at hended ⊢
  · cases hended
  · cases hended
  · simp

theorem pollout_writePart (hended : (writePart w inFd outFd buf).ended = true) :
    (writePart w inFd outFd buf).outFd.events.pollout = false := by
  rcases writePart_cases w inFd outFd buf with heq | ⟨-, heq⟩ | ⟨cause, -, -, -, heq⟩ <;>
    rw [heq] at hended ⊢
  · cases hended
  · cases hended
  · simp

theorem rearmPart_requests (inFd outFd : Pollfd) (buf : RoundBuffer) :
    (rearmPart inFd outFd buf).ended = false ∧
      (rearmPart inFd outFd buf).outFd.events.pollout = !rbEmpty buf := by
  unfold rearmPart
  split_ifs with hempty
  · simp [hempty]
  · simp [hempty, setPollfdFlags]

/-- **A transfer.** Behind it, `POLLOUT` is requested if the direction goes on and has bytes left,
and only then. -/
theorem pollout_transfer (r : ReadResult) (w : WriteResult) (inFd outFd : Pollfd)
    (buf : RoundBuffer) :
    let t := transfer r w inFd outFd buf
    t.outFd.events.pollout = (!t.ended && !rbEmpty t.buf) := by
  intro t
  set t₁ := (readPart r inFd outFd buf).andThen (writePart w) with ht₁
  have ht : t = t₁.andThen rearmPart := rfl
  cases hended : t₁.ended with
  | true =>
    have hclosed : t₁.outFd.events.pollout = false := by
      cases hread : (readPart r inFd outFd buf).ended with
      | true =>
        rw [ht₁, andThen_of_ended hread]
        exact pollout_readPart hread
      | false =>
        rw [ht₁, andThen_of_not_ended hread] at hended ⊢
        exact pollout_writePart hended
    rw [ht, andThen_of_ended hended, hended, hclosed]
    rfl
  | false =>
    obtain ⟨hopen, hpollout⟩ := rearmPart_requests t₁.inFd t₁.outFd t₁.buf
    rw [ht, andThen_of_not_ended hended]
    dsimp only
    rw [hopen, hpollout, buf_rearmPart]
    rfl

end Transfer

/-! ### One client -/

/-- `POLLOUT` is requested exactly as long as an active direction has unread bytes. -/
def Requests (o : Proxied) : Prop :=
  ∀ dir, (o.outFd dir).events.pollout = (o.client.active dir && !rbEmpty (o.client.buf dir))

variable {o : Proxied} {s : State}

theorem requests_direction (h : Coherent o) (hreq : Requests o) (dir : Dir) (env : SocketEnv)
    (hready : (o.outFd dir).revents.pollout = true → (o.outFd dir).events.pollout = true) :
    Requests (o.direction env dir) := by
  have hother := (coherent_direction h dir env hready).2.2
  rw [Proxied.direction] at hother ⊢
  split_ifs at hother ⊢ with hactive
  · intro d
    rcases d.eq_or dir with rfl | rfl
    · have hpollout : (o.transferOf env d).outFd.events.pollout =
          (!(o.transferOf env d).ended && !rbEmpty (o.transferOf env d).buf) :=
        pollout_transfer ..
      rw [outFd_after, active_after, buf_after, hactive, hpollout]
      cases (o.transferOf env d).ended <;> rfl
    · rw [inFd_after] at hother
      rw [outFd_other_after, active_other_after, buf_other_after, hother, ← outFd_other]
      exact hreq dir.other
  · exact hreq

theorem Requests.serve (h : Requests o) (hcoherent : Coherent o) (src dst : PollMask)
    (env : SocketEnv) : Requests ((o.polled src dst).serve env) := by
  have hpolled : Requests (o.polled src dst) := by
    intro dir
    cases dir with
    | srcDst => exact h .srcDst
    | dstSrc => exact h .dstSrc
  have hfirst := requests_direction (hcoherent.polled src dst) hpolled .srcDst env
    fun hrev => pollRevents_pollout (p := o.dst) hrev
  exact requests_direction (hcoherent.first src dst env) hfirst .dstSrc env
    (hcoherent.second_ready src dst env)

theorem Life.requests (h : Life o) : Requests o := by
  induction h with
  | new ref mem srcFd dstFd oldSrc oldDst =>
    intro dir
    cases dir <;> rfl
  | round hlife src dst env _ ih => exact ih.serve hlife.coherent src dst env

/-! ### Runs -/

/-- **What is polled.** Whenever the main loop polls, both sockets of every client are among the
entries passed to `poll`. `POLLIN` is requested of a socket exactly if the direction that reads it
is active, and `POLLOUT` exactly if the one that writes it is active and has unread bytes; if
nothing is requested, the descriptor is masked. Of every client one socket at least is polled for
input, and the listening socket exactly if a slot is free. -/
theorem polled_iff (h : Reach s) :
    ((beforePoll s).fds 0).events = { pollin := decide (s.clientsCount < maxClients) } ∧
      ∀ slot < s.clientsCount, ∃ ref c, s.clients slot = some ref ∧ s.heap ref = some c ∧
        (∃ dir, c.active dir = true) ∧ ∀ dir : Dir,
          dir.inIndex slot < 1 + 2 * s.clientsCount ∧
          let p := (beforePoll s).fds (dir.inIndex slot)
          p.events.pollin = c.active dir ∧
            p.events.pollout = (c.active dir.other && !rbEmpty (c.buf dir.other)) ∧
              p.fd = if p.events = {} then complement (c.inOwn dir) else (c.inOwn dir : ℤ) := by
  obtain ⟨objs, hshows, hlife⟩ := h.interrupted.shows
  refine ⟨?_, fun slot hslot => ?_⟩
  · rw [beforePoll]
    dsimp only
    rw [Function.update_self]
    split_ifs with hlt <;> simp [hlt]
  · have hcount : s.clientsCount = objs.length := by
      rw [← List.length_map (f := some)]
      exact hshows.count
    have hlt : slot < objs.length := hcount ▸ hslot
    obtain ⟨hrow, hheap, -⟩ := hshows.slot slot (some objs[slot]) (by simp [hlt])
    have ho := hlife _ (List.getElem_mem hlt)
    obtain ⟨hclient, hsrc, hdst⟩ := Row.mk.inj hrow
    refine ⟨objs[slot].ref, objs[slot].client, hclient, hheap, ?_, fun dir => ?_⟩
    · by_contra hnone
      have hfinished := (finished_iff objs[slot]).mpr fun dir =>
        Bool.eq_false_of_not_eq_true fun hactive => hnone ⟨dir, hactive⟩
      exact absurd hfinished (ne_true_of_eq_false ho.active)
    · have hin : (beforePoll s).fds (dir.inIndex slot) = objs[slot].inFd dir := by
        cases dir with
        | srcDst => exact hsrc
        | dstSrc => exact hdst
      refine ⟨?_, ?_⟩
      · cases dir <;> simp only [Dir.inIndex, srcIndex, dstIndex] <;> omega
      · rw [hin]
        refine ⟨ho.coherent.pollin dir, ?_, ho.coherent.fits dir⟩
        rw [← outFd_other]
        exact ho.requests dir.other

/-- Bytes of a client that are unread are asked for at the other socket. -/
theorem polled_iff_threeBytes : ∃ s, Reach s ∧ s.clientsCount = 1 ∧
    ((beforePoll s).fds (dstIndex 0)).events = { pollin := true, pollout := true } ∧
      ∃ c : Client, c.active .srcDst = true ∧ rbEmpty (c.buf .srcDst) = false := by
  have hrun : ((rounds threeBytes (start 3)).map fun s =>
      (s.clientsCount, decide (((beforePoll s).fds (dstIndex 0)).events =
        { pollin := true, pollout := true }))) = some (1, true) := by decide +kernel
  obtain ⟨s, hs, heq⟩ := Option.map_eq_some_iff.mp hrun
  obtain ⟨hcount, hevents⟩ := Prod.mk.inj heq
  have hevents := of_decide_eq_true hevents
  have hreach := (Reach.start 3).rounds hs
  obtain ⟨ref, c, -, -, -, hdir⟩ := (polled_iff hreach).2 0 (by omega)
  obtain ⟨-, -, hpollout, -⟩ := hdir .dstSrc
  change ((beforePoll s).fds (dstIndex 0)).events.pollout = _ at hpollout
  rw [hevents] at hpollout
  obtain ⟨hactive, hleft⟩ := Bool.and_eq_true_iff.mp hpollout.symm
  rw [Bool.not_eq_true'] at hleft
  exact ⟨s, hreach, hcount, hevents, c, hactive, hleft⟩

/-! ### The bytes of a client -/

theorem Ended.flows {log : List Event} (h : Ended log) (dir : Dir) :
    ∃ buf, Flows (dirCalls dir log) buf := by
  obtain ⟨o, hlife, src, dst, env, -, rfl⟩ := h
  exact ⟨_, (hlife.flowing.serve hlife.coherent src dst env).flows dir⟩

/-- **The bytes of a client.** In every run, if no byte of a direction has been stored behind unread
bytes that wrap, then the bytes written are the start of the bytes read; and as long as the client
is connected, the rest of them is in the buffer of the direction, whichever slot it is in. -/
theorem proxied_conserves_bytes (h : Reach s) (ref : ℕ) (dir : Dir)
    (hstores : ∀ c ∈ dirCalls dir (about ref s.trace), c.Stores) :
    writtenBytes (dirCalls dir (about ref s.trace)) <+:
        readBytes (dirCalls dir (about ref s.trace)) ∧
      ∀ slot < s.clientsCount, ∀ c, s.clients slot = some ref → s.heap ref = some c →
        readBytes (dirCalls dir (about ref s.trace)) =
          writtenBytes (dirCalls dir (about ref s.trace)) ++ (c.buf dir).contents := by
  obtain ⟨objs, hshows, hlife⟩ := h.shows
  refine ⟨?_, fun slot hslot c hclient hheap => ?_⟩
  · rcases hshows.log_cases ref with ⟨o, ho, -, hlog⟩ | ⟨hended, -⟩ | hnone
    · rw [hlog] at hstores ⊢
      exact ⟨_, ((hlife o ho).flowing.flows dir hstores).2⟩
    · obtain ⟨buf, hflows⟩ := hended.flows dir
      exact ⟨_, (hflows hstores).2⟩
    · rw [hnone]
      exact List.prefix_refl _
  · rw [hshows.count, List.length_map] at hslot
    obtain ⟨hrow, hheap', hlog⟩ := hshows.slot slot (some objs[slot]) (by simp [hslot])
    have href : objs[slot].ref = ref :=
      Option.some.inj ((Row.mk.inj hrow).1.symm.trans hclient)
    rw [href] at hheap' hlog
    obtain rfl : objs[slot].client = c := Option.some.inj (hheap'.symm.trans hheap)
    rw [hlog] at hstores ⊢
    exact ((hlife _ (List.getElem_mem hslot)).flowing.flows dir hstores).2.symm

/-- The target has taken two of the bytes that a client has sent. -/
theorem proxied_conserves_bytes_threeBytes : ∃ s, Reach s ∧
    readBytes (dirCalls .srcDst (about 0 s.trace)) = [1, 2, 3] ∧
      writtenBytes (dirCalls .srcDst (about 0 s.trace)) = [1, 2] ∧
        writtenBytes (dirCalls .srcDst (about 0 s.trace)) <+:
          readBytes (dirCalls .srcDst (about 0 s.trace)) := by
  have hrun : ((rounds (threeBytes ++
      [transferRound {} { pollout := true } (.error .eagain) (.taken 2)]) (start 3)).map fun s =>
        let calls := dirCalls .srcDst (about 0 s.trace)
        (readBytes calls, writtenBytes calls, decide (∀ c ∈ calls, c.Stores))) =
          some ([1, 2, 3], [1, 2], true) := by decide +kernel
  obtain ⟨s, hs, heq⟩ := Option.map_eq_some_iff.mp hrun
  obtain ⟨hread, heq⟩ := Prod.mk.inj heq
  obtain ⟨hwritten, hstores⟩ := Prod.mk.inj heq
  have hreach := (Reach.start 3).rounds hs
  exact ⟨s, hreach, hread, hwritten,
    (proxied_conserves_bytes hreach 0 .srcDst (of_decide_eq_true hstores)).1⟩

end OsTasks.Proxy
