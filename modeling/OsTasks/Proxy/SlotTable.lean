import OsTasks.Proxy.Table

/-!
# The slot table of the proxy

Between two rounds every slot holds a client whose descriptors, or their complements, are in the
two `struct pollfd`s of the slot. `POLLIN` is requested exactly of the sockets that an active
direction reads, `POLLOUT` only of those that an active direction writes, and a descriptor is
complemented exactly when nothing is requested. The calls of a client go to its own descriptors,
as non-negative numbers, and stop with the end of their direction.

## Main definitions

* `Fits`: a `struct pollfd` holds a descriptor, or its complement if nothing is requested.
* `LogOk`: the order of the events about one client.
* `Coherent`: what is true of a client in every run.

## Main results

* `coherent_direction`: a transfer keeps a client coherent.
* `slotTable_consistent`: the slot table in every run.
-/

namespace OsTasks.Proxy

open PortForwarding (Pollfd PollMask clearPollfdFlags setPollfdFlags complement
  complement_natCast_neg events_clearPollfdFlags pollRevents)

/-! ### Parked descriptors -/

/-- The descriptor is in the `struct pollfd`, or its complement if nothing is requested. -/
def Fits (own : ℕ) (p : Pollfd) : Prop :=
  p.fd = if p.events = {} then complement own else (own : ℤ)

section Fits

variable {own : ℕ} {p : Pollfd} {mask : PollMask}

theorem Fits.fd (h : Fits own p) (hp : p.events ≠ {}) : p.fd = own := by
  rw [Fits, if_neg hp] at h
  exact h

theorem fits_armIn (own : ℕ) (p : Pollfd) : Fits own (armIn own p) :=
  (if_neg (by decide : ({ pollin := true } : PollMask) ≠ {})).symm

/-- The descriptor, as `try_shutdown` finds it. -/
theorem Fits.shutdown (h : Fits own p) : (if p.fd < 0 then complement p.fd else p.fd) = own := by
  rw [Fits] at h
  split_ifs at h
  · rw [if_pos (h ▸ complement_natCast_neg own), h, PortForwarding.complement_complement]
  · rw [if_neg (by omega), h]

theorem Fits.clear (h : Fits own p) : Fits own (clearPollfdFlags p mask) := by
  rw [Fits, events_clearPollfdFlags]
  unfold clearPollfdFlags
  dsimp only
  by_cases hnone : (⟨p.events.pollin && !mask.pollin, p.events.pollout && !mask.pollout⟩ :
      PollMask) = {}
  · rw [if_pos hnone]
    by_cases hp : p.events = {}
    · rw [Fits, if_pos hp] at h
      rw [if_neg fun hand => absurd hand.2 (by have := complement_natCast_neg own; omega)]
      exact h
    · rw [if_pos ⟨hnone, by rw [h.fd hp]; omega⟩]
      exact congrArg complement (h.fd hp)
  · have hp : p.events ≠ {} := fun hp => hnone (by rw [hp]; rfl)
    rw [if_neg hnone, if_neg fun hand => hnone hand.1]
    exact h.fd hp

theorem Fits.setPollout (h : Fits own p) : Fits own (setPollfdFlags p { pollout := true }) := by
  have hset : (setPollfdFlags p { pollout := true }).events ≠ {} := by
    rw [setPollfdFlags, if_neg (by decide)]
    simp
  rw [Fits, if_neg hset, setPollfdFlags, if_neg (by decide)]
  exact h.shutdown

end Fits

/-! ### The order of the events about a client -/

/-- Of two things about the client and the target, the one about the socket that is read. -/
def Dir.inOf {α : Type*} (dir : Dir) (src dst : α) : α :=
  match dir with
  | .srcDst => src
  | .dstSrc => dst

/-- Of two things about the client and the target, the one about the socket that is written. -/
def Dir.outOf {α : Type*} (dir : Dir) (src dst : α) : α :=
  match dir with
  | .srcDst => dst
  | .dstSrc => src

def IoCall.isShutdown : IoCall → Bool
  | .shutdown .. => true
  | .readv .. | .writev .. | .arm _ => false

/-- A call goes to the descriptor of its side, which is not negative. -/
def IoCall.GoesTo (c : IoCall) (inOwn outOwn : ℕ) : Prop :=
  match c with
  | .readv fd .. | .shutdown fd .rd _ => fd = inOwn
  | .writev fd .. | .shutdown fd .wr _ | .arm fd => fd = outOwn

/-- The event ends a direction. -/
def Event.Ends (dir : Dir) : Event → Prop
  | .call _ d c => d = dir ∧ c.isShutdown = true
  | .connected .. | .disconnected .. | .closeUnused _ => False

/-- A direction has ended. -/
def DirEnded (dir : Dir) (log : List Event) : Prop := ∃ e ∈ log, e.Ends dir

def Event.isDisconnected : Event → Bool
  | .disconnected .. => true
  | .connected .. | .call .. | .closeUnused _ => false

/-- What is known of the earlier events about a client when an event happens. Calls go to its own
descriptors, as long as their direction has not ended; the client is disconnected once, after both
directions have ended. -/
def EventOk (past : List Event) : Event → Prop
  | .connected .. => past = []
  | .call ref dir c => past.countP Event.isDisconnected = 0 ∧ ¬ DirEnded dir past ∧
      ∃ srcFd dstFd, .connected ref srcFd dstFd ∈ past ∧
        c.GoesTo (dir.inOf srcFd dstFd) (dir.outOf srcFd dstFd)
  | .disconnected ref srcFd dstFd => past.countP Event.isDisconnected = 0 ∧
      (∀ dir, DirEnded dir past) ∧ .connected ref srcFd dstFd ∈ past
  | .closeUnused _ => False

/-- Every event about a client finds what it needs. -/
def LogOk : List Event → Prop
  | [] => True
  | e :: past => EventOk past e ∧ LogOk past

/-- A shutdown comes last. -/
def ShutdownLast : List IoCall → Prop
  | [] => True
  | c :: calls => (c.isShutdown = true → calls = []) ∧ ShutdownLast calls

theorem dirEnded_cons (dir : Dir) (e : Event) (log : List Event) :
    DirEnded dir (e :: log) ↔ e.Ends dir ∨ DirEnded dir log := by
  simp [DirEnded]

/-- The calls of a transfer in a direction that has not ended. -/
theorem logOk_calls {ref srcFd dstFd : ℕ} {dir : Dir} {calls : List IoCall} {log : List Event}
    (hgoes : ∀ c ∈ calls, c.GoesTo (dir.inOf srcFd dstFd) (dir.outOf srcFd dstFd))
    (hlast : ShutdownLast calls) (hconnected : .connected ref srcFd dstFd ∈ log)
    (hpresent : log.countP Event.isDisconnected = 0) (hended : ¬ DirEnded dir log)
    (hlog : LogOk log) :
    let log' := (calls.map (Event.call ref dir)).reverse ++ log
    LogOk log' ∧ log'.countP Event.isDisconnected = 0 ∧ .connected ref srcFd dstFd ∈ log' ∧
      ∀ d, DirEnded d log' ↔ DirEnded d log ∨ d = dir ∧ ∃ c ∈ calls, c.isShutdown = true := by
  induction calls generalizing log with
  | nil => exact ⟨hlog, hpresent, hconnected, fun d => by simp⟩
  | cons c calls ih =>
    have hcons : LogOk (.call ref dir c :: log) :=
      ⟨⟨hpresent, hended, srcFd, dstFd, hconnected, hgoes c List.mem_cons_self⟩, hlog⟩
    have hcount : (Event.call ref dir c :: log).countP Event.isDisconnected = 0 := by
      rw [List.countP_cons_of_neg Bool.false_ne_true]
      exact hpresent
    have hends (d : Dir) : (Event.call ref dir c).Ends d ↔ d = dir ∧ c.isShutdown = true :=
      and_congr_left' eq_comm
    have hsplit : (((c :: calls).map (Event.call ref dir)).reverse ++ log) =
        (calls.map (Event.call ref dir)).reverse ++ .call ref dir c :: log := by simp
    rw [hsplit]
    cases hshut : c.isShutdown with
    | true =>
      obtain rfl := hlast.1 hshut
      refine ⟨hcons, hcount, List.mem_cons_of_mem _ hconnected, fun d => ?_⟩
      rw [List.map_nil, List.reverse_nil, List.nil_append, dirEnded_cons, hends, or_comm]
      simp [hshut]
    | false =>
      have hopen : ¬ DirEnded dir (.call ref dir c :: log) := by
        rw [dirEnded_cons, hends, hshut]
        simpa using hended
      obtain ⟨hok, hzero, hmem, hdirs⟩ := ih (fun c' hc' => hgoes c' (List.mem_cons_of_mem _ hc'))
        hlast.2 (List.mem_cons_of_mem _ hconnected) hcount hopen hcons
      refine ⟨hok, hzero, hmem, fun d => ?_⟩
      rw [hdirs, dirEnded_cons, hends, hshut]
      simp [hshut]

/-! ### Coherent clients -/

/-- The descriptor of the socket that a direction reads. -/
def Client.inOwn (c : Client) (dir : Dir) : ℕ := dir.inOf c.srcFd c.dstFd

/-- The descriptor of the socket that a direction writes. -/
def Client.outOwn (c : Client) (dir : Dir) : ℕ := dir.outOf c.srcFd c.dstFd

/-- The slot and the log of a client that is connected agree with it. -/
structure Coherent (o : Proxied) : Prop where
  fits : ∀ dir, Fits (o.client.inOwn dir) (o.inFd dir)
  pollin : ∀ dir, (o.inFd dir).events.pollin = o.client.active dir
  pollout : ∀ dir, (o.outFd dir).events.pollout = true → o.client.active dir = true
  connected : .connected o.ref o.client.srcFd o.client.dstFd ∈ o.log
  present : o.log.countP Event.isDisconnected = 0
  ended : ∀ dir, DirEnded dir o.log ↔ o.client.active dir = false
  logOk : LogOk o.log

/-- What `transfer` does to an active direction, seen from outside. -/
structure Handled (inOwn outOwn : ℕ) (inFd outFd : Pollfd) (t : Transferred) : Prop where
  inFits : Fits inOwn t.inFd
  outFits : Fits outOwn t.outFd
  pollin : t.inFd.events.pollin = !t.ended
  inPollout : t.inFd.events.pollout = inFd.events.pollout
  outPollin : t.outFd.events.pollin = outFd.events.pollin
  pollout : t.outFd.events.pollout = true → t.ended = false
  inRevents : t.inFd.revents = inFd.revents
  goes : ∀ c ∈ t.calls, c.GoesTo inOwn outOwn
  last : ShutdownLast t.calls
  shutdown : (∃ c ∈ t.calls, c.isShutdown = true) ↔ t.ended = true

theorem shutdownLast_append {before after : List IoCall}
    (hbefore : ∀ c ∈ before, c.isShutdown = false) (hafter : ShutdownLast after) :
    ShutdownLast (before ++ after) := by
  induction before with
  | nil => exact hafter
  | cons c before ih =>
    have hc := hbefore c List.mem_cons_self
    exact ⟨fun hshut => absurd hshut (ne_true_of_eq_false hc),
      ih fun c' hc' => hbefore c' (List.mem_cons_of_mem _ hc')⟩

section Handled

variable {inOwn outOwn : ℕ} {inFd outFd : Pollfd} {buf : RoundBuffer} {calls : List IoCall}

/-- A transfer that ends its direction. -/
theorem handled_closed (hin : Fits inOwn inFd) (hout : Fits outOwn outFd)
    {before : List IoCall} {c : IoCall} (hbefore : ∀ c ∈ before, c.isShutdown = false)
    (hc : c.isShutdown = true) (hgoes : ∀ c' ∈ before ++ [c], c'.GoesTo inOwn outOwn) :
    Handled inOwn outOwn inFd outFd ⟨true, clearPollfdFlags inFd { pollin := true },
      clearPollfdFlags outFd { pollout := true }, buf, before ++ [c]⟩ where
  inFits := hin.clear
  outFits := hout.clear
  pollin := by simp
  inPollout := by simp
  outPollin := by simp
  pollout := by simp
  inRevents := by simp
  goes := hgoes
  last := shutdownLast_append hbefore ⟨fun _ => rfl, trivial⟩
  shutdown := by simpa using .inr hc

/-- A transfer that goes on. -/
theorem handled_open (hin : Fits inOwn inFd) (hpollin : inFd.events.pollin = true)
    {outFd' : Pollfd} (hout : Fits outOwn outFd')
    (hsame : outFd'.events.pollin = outFd.events.pollin)
    (hno : ∀ c ∈ calls, c.isShutdown = false) (hgoes : ∀ c ∈ calls, c.GoesTo inOwn outOwn) :
    Handled inOwn outOwn inFd outFd ⟨false, inFd, outFd', buf, calls⟩ where
  inFits := hin
  outFits := hout
  pollin := by simpa using hpollin
  inPollout := rfl
  outPollin := hsame
  pollout _ := rfl
  inRevents := rfl
  goes := hgoes
  last := by
    have hlast : ShutdownLast (calls ++ []) := shutdownLast_append hno trivial
    rwa [List.append_nil] at hlast
  shutdown := by
    refine ⟨fun ⟨c, hc, hshut⟩ => ?_, fun hfalse => absurd hfalse Bool.false_ne_true⟩
    exact absurd hshut (ne_true_of_eq_false (hno c hc))

/-- **`transfer`, seen from outside.** `poll` has reported only what was requested. -/
theorem handled_transfer (hin : Fits inOwn inFd) (hout : Fits outOwn outFd)
    (hpollin : inFd.events.pollin = true)
    (hready : outFd.revents.pollout = true → outFd.events.pollout = true)
    (r : PortForwarding.ReadResult) (w : PortForwarding.WriteResult) (buf : RoundBuffer) :
    Handled inOwn outOwn inFd outFd (transfer r w inFd outFd buf) := by
  have hinFd : inFd.fd = inOwn := hin.fd fun hnone => by simp [hnone] at hpollin
  have houtFd : outFd.revents.pollout = true → outFd.fd = outOwn := fun hrev =>
    hout.fd fun hnone => by simp [hnone] at hready; simp [hready] at hrev
  rcases transfer_cases r w inFd outFd buf with
    ⟨cause, -, -, ht⟩ | ⟨reads, hreads, ⟨cause, buf', -, hrev, ht⟩ | ⟨writes, buf', hwrites, ht⟩⟩
  · rw [ht]
    have hclosed : ∀ first last : IoCall, [first, last] = [first] ++ [last] := fun _ _ => rfl
    rw [hclosed]
    refine handled_closed hin hout (fun c hc => ?_) rfl ?_
    · rw [List.mem_singleton.mp hc]
      rfl
    · simp only [List.cons_append, List.nil_append, List.forall_mem_cons]
      exact ⟨hinFd, hout.clear.shutdown, fun c hc => absurd hc List.not_mem_nil⟩
  all_goals
    have hreadGoes : ∀ c ∈ reads, c.isShutdown = false ∧ c.GoesTo inOwn outOwn := by
      rcases hreads with rfl | ⟨-, bytes, rfl⟩
      · exact fun c hc => absurd hc List.not_mem_nil
      · rintro c hc
        rw [List.mem_singleton.mp hc]
        exact ⟨rfl, hinFd⟩
  · rw [ht, List.append_cons]
    refine handled_closed hin hout (fun c hc => ?_) rfl fun c hc => ?_
    · rcases List.mem_append.mp hc with hc | hc
      · exact (hreadGoes c hc).1
      · rw [List.mem_singleton.mp hc]
        rfl
    · rcases List.mem_append.mp hc with hc | hc
      · rcases List.mem_append.mp hc with hc | hc
        · exact (hreadGoes c hc).2
        · rw [List.mem_singleton.mp hc]
          exact houtFd hrev
      · rw [List.mem_singleton.mp hc]
        exact hin.clear.shutdown
  · have hwriteGoes : ∀ c ∈ reads ++ writes, c.isShutdown = false ∧ c.GoesTo inOwn outOwn := by
      intro c hc
      rcases List.mem_append.mp hc with hc | hc
      · exact hreadGoes c hc
      · rcases hwrites with rfl | ⟨hrev, bytes, rfl⟩
        · exact absurd hc List.not_mem_nil
        · rw [List.mem_singleton.mp hc]
          exact ⟨rfl, houtFd hrev⟩
    have hset : (setPollfdFlags outFd { pollout := true }).events.pollin = outFd.events.pollin := by
      rw [setPollfdFlags, if_neg (by decide)]
      simp
    rcases ht with ht | ht <;> rw [ht]
    · exact handled_open hin hpollin hout.clear (by simp) (fun c hc => (hwriteGoes c hc).1)
        fun c hc => (hwriteGoes c hc).2
    · have hne : (setPollfdFlags outFd { pollout := true }).events ≠ {} := by
        rw [setPollfdFlags, if_neg (by decide)]
        simp
      refine handled_open hin hpollin hout.setPollout hset (fun c hc => ?_) fun c hc => ?_ <;>
        rcases List.mem_append.mp hc with hc | hc
      · exact (hwriteGoes c hc).1
      · rw [List.mem_singleton.mp hc]
        rfl
      · exact (hwriteGoes c hc).2
      · rw [List.mem_singleton.mp hc]
        exact hout.setPollout.fd hne

end Handled

/-! ### The life of a client -/

section Life

variable {o : Proxied}

/-- The socket that a direction reads is the one that the other writes. -/
def Dir.other : Dir → Dir
  | .srcDst => .dstSrc
  | .dstSrc => .srcDst

theorem Dir.eq_or (d dir : Dir) : d = dir ∨ d = dir.other := by
  cases d <;> cases dir <;> simp [Dir.other]

theorem Dir.other_ne (dir : Dir) : dir.other ≠ dir := by
  cases dir <;> simp [Dir.other]

section After

variable (o : Proxied) (dir : Dir) (t : Transferred)

@[simp] theorem inFd_after : (o.after dir t).inFd dir = t.inFd := by cases dir <;> rfl

@[simp] theorem inFd_other_after : (o.after dir t).inFd dir.other = t.outFd := by
  cases dir <;> rfl

@[simp] theorem outFd_after : (o.after dir t).outFd dir = t.outFd := by cases dir <;> rfl

@[simp] theorem outFd_other_after : (o.after dir t).outFd dir.other = t.inFd := by
  cases dir <;> rfl

@[simp] theorem inFd_other : o.inFd dir.other = o.outFd dir := by cases dir <;> rfl

@[simp] theorem outFd_other : o.outFd dir.other = o.inFd dir := by cases dir <;> rfl

@[simp] theorem active_after : (o.after dir t).client.active dir =
    if t.ended then false else o.client.active dir := by cases dir <;> rfl

@[simp] theorem active_other_after : (o.after dir t).client.active dir.other =
    o.client.active dir.other := by cases dir <;> rfl

@[simp] theorem inOwn_after (d : Dir) : (o.after dir t).client.inOwn d = o.client.inOwn d := by
  cases dir <;> cases d <;> rfl

@[simp] theorem inOwn_other (c : Client) : c.inOwn dir.other = c.outOwn dir := by
  cases dir <;> rfl

theorem connected_after : Event.connected (o.after dir t).ref (o.after dir t).client.srcFd
    (o.after dir t).client.dstFd = .connected o.ref o.client.srcFd o.client.dstFd := by
  cases dir <;> rfl

end After

theorem coherent_new (ref : ℕ) (mem : (ℕ → UInt8) × (ℕ → UInt8)) (srcFd dstFd : ℕ)
    (oldSrc oldDst : Pollfd) : Coherent (newProxied ref mem srcFd dstFd oldSrc oldDst) where
  fits dir := by cases dir <;> exact fits_armIn _ _
  pollin dir := by cases dir <;> rfl
  pollout dir h := by cases dir <;> exact absurd h Bool.false_ne_true
  connected := List.mem_singleton_self _
  present := rfl
  ended dir := by cases dir <;> simp [DirEnded, newProxied, Event.Ends, Client.active]
  logOk := ⟨rfl, trivial⟩

theorem Coherent.polled (h : Coherent o) (src dst : PollMask) : Coherent (o.polled src dst) where
  fits
    | .srcDst => h.fits .srcDst
    | .dstSrc => h.fits .dstSrc
  pollin
    | .srcDst => h.pollin .srcDst
    | .dstSrc => h.pollin .dstSrc
  pollout
    | .srcDst => h.pollout .srcDst
    | .dstSrc => h.pollout .dstSrc
  connected := h.connected
  present := h.present
  ended := h.ended
  logOk := h.logOk

/-- `poll` reports only what was requested. -/
theorem pollRevents_pollout {ready : PollMask} {p : Pollfd}
    (h : (pollRevents ready p).pollout = true) : p.events.pollout = true := by
  unfold pollRevents at h
  split_ifs at h
  exact (Bool.and_eq_true_iff.mp h).2

/-- **One direction.** A transfer keeps a client coherent, if the socket that it writes has been
reported only if this was requested. Of the other socket, only the request of `POLLIN` changes. -/
theorem coherent_direction (h : Coherent o) (dir : Dir) (env : SocketEnv)
    (hready : (o.outFd dir).revents.pollout = true → (o.outFd dir).events.pollout = true) :
    Coherent (o.direction env dir) ∧
      ((o.direction env dir).inFd dir).revents = (o.inFd dir).revents ∧
      ((o.direction env dir).inFd dir).events.pollout = (o.inFd dir).events.pollout := by
  rw [Proxied.direction]
  split_ifs with hactive
  · have hin := h.fits dir
    have hout := h.fits dir.other
    rw [inOwn_other, inFd_other] at hout
    have ht : Handled (o.client.inOwn dir) (o.client.outOwn dir) (o.inFd dir) (o.outFd dir)
        (o.transferOf env dir) :=
      handled_transfer hin hout ((h.pollin dir).trans hactive) hready _ _ _
    have hopen : ¬ DirEnded dir o.log := by
      rw [h.ended, hactive]
      exact Bool.false_ne_true.symm
    obtain ⟨hok, hpresent, hconnected, hdirs⟩ :=
      logOk_calls ht.goes ht.last h.connected h.present hopen h.logOk
    refine ⟨⟨fun d => ?_, fun d => ?_, fun d => ?_, ?_, hpresent, fun d => ?_, hok⟩, ?_, ?_⟩
    · rcases d.eq_or dir with rfl | rfl
      · rw [inOwn_after, inFd_after]
        exact ht.inFits
      · rw [inOwn_after, inOwn_other, inFd_other_after]
        exact ht.outFits
    · rcases d.eq_or dir with rfl | rfl
      · simp [ht.pollin, hactive]
      · have hother := h.pollin dir.other
        rw [inFd_other] at hother
        rw [inFd_other_after, active_other_after, ht.outPollin, hother]
    · rcases d.eq_or dir with rfl | rfl
      · intro hpollout
        rw [outFd_after] at hpollout
        simp [ht.pollout hpollout, hactive]
      · intro hpollout
        rw [outFd_other_after, ht.inPollout] at hpollout
        have hother := h.pollout dir.other
        rw [outFd_other] at hother
        rw [active_other_after]
        exact hother hpollout
    · rw [connected_after]
      exact hconnected
    · refine (hdirs d).trans ?_
      rw [h.ended, ht.shutdown]
      rcases d.eq_or dir with rfl | rfl
      · simp [hactive]
      · simp [dir.other_ne]
    · rw [inFd_after, ht.inRevents]
    · rw [inFd_after, ht.inPollout]
  · exact ⟨h, rfl, rfl⟩

/-- The first direction that is served. -/
theorem Coherent.first (h : Coherent o) (src dst : PollMask) (env : SocketEnv) :
    Coherent ((o.polled src dst).direction env .srcDst) :=
  (coherent_direction (h.polled src dst) .srcDst env
    fun hrev => pollRevents_pollout (p := o.dst) hrev).1

/-- The second direction finds its output reported only if this was requested. -/
theorem Coherent.second_ready (h : Coherent o) (src dst : PollMask) (env : SocketEnv) :
    let o₁ := (o.polled src dst).direction env .srcDst
    (o₁.outFd .dstSrc).revents.pollout = true → (o₁.outFd .dstSrc).events.pollout = true := by
  intro o₁ hrev
  obtain ⟨-, hrevents, hpollout⟩ := coherent_direction (h.polled src dst) .srcDst env
    fun hrev => pollRevents_pollout (p := o.dst) hrev
  change (o₁.inFd .srcDst).events.pollout = true
  rw [hpollout]
  exact pollRevents_pollout (p := o.src) (hrevents ▸ hrev)

/-- Both directions. -/
theorem Coherent.serve (h : Coherent o) (src dst : PollMask) (env : SocketEnv) :
    Coherent ((o.polled src dst).serve env) :=
  (coherent_direction (h.first src dst env) .dstSrc env (h.second_ready src dst env)).1

/-- **A life.** In every run every client is coherent. -/
theorem Life.coherent (h : Life o) : Coherent o := by
  induction h with
  | new ref mem srcFd dstFd oldSrc oldDst => exact coherent_new ref mem srcFd dstFd oldSrc oldDst
  | round _ src dst env _ ih => exact ih.serve src dst env

/-- A client that is connected has an active direction. -/
theorem Life.active (h : Life o) : o.finished = false := by
  cases h with
  | new => rfl
  | round _ _ _ _ hactive => exact hactive

theorem finished_iff (o : Proxied) :
    o.finished = true ↔ ∀ dir, o.client.active dir = false := by
  refine ⟨fun h dir => ?_, fun h => ?_⟩
  · rw [Proxied.finished, Bool.and_eq_true, Bool.not_eq_true', Bool.not_eq_true'] at h
    cases dir with
    | srcDst => exact h.1
    | dstSrc => exact h.2
  · have hsrc : o.client.srcDstActive = false := h .srcDst
    have hdst : o.client.dstSrcActive = false := h .dstSrc
    rw [Proxied.finished, hsrc, hdst]
    rfl

/-- The log of a client that has been disconnected. -/
theorem Ended.log {log : List Event} (h : Ended log) :
    LogOk log ∧ log.countP Event.isDisconnected = 1 ∧ ∀ dir, DirEnded dir log := by
  obtain ⟨o, hlife, src, dst, env, hfinished, rfl⟩ := h
  have hcoherent := hlife.coherent.serve src dst env
  have hends : ∀ dir, DirEnded dir ((o.polled src dst).serve env).log := fun dir =>
    (hcoherent.ended dir).mpr ((finished_iff _).mp hfinished dir)
  refine ⟨⟨⟨hcoherent.present, hends, hcoherent.connected⟩, hcoherent.logOk⟩, ?_, fun dir => ?_⟩
  · rw [Proxied.disconnectedLog, List.countP_cons_of_pos rfl, hcoherent.present]
  · exact (dirEnded_cons dir _ _).mpr (.inr (hends dir))

end Life

/-! ### Termination -/

/-- What `disconnect_client` does to the trace. -/
def Proxied.disconnect (o : Proxied) : Event :=
  .disconnected o.ref o.client.srcFd o.client.dstFd

/-- **The last loop of `main`.** -/
theorem disconnectSlots_eq {s : State} {todo : List Proxied} {i : ℕ}
    (hheld : ∀ j o, todo[j]? = some o →
      s.clients (i + j) = some o.ref ∧ s.heap o.ref = some o.client)
    (hnodup : (todo.map Proxied.ref).Nodup) :
    ∃ s', disconnectSlots todo.length i s = some s' ∧
      s'.trace = (todo.map Proxied.disconnect).reverse ++ s.trace := by
  induction todo generalizing s i with
  | nil => exact ⟨s, rfl, rfl⟩
  | cons o todo ih =>
    obtain ⟨hclient, hheap⟩ := hheld 0 o rfl
    rw [List.map_cons, List.nodup_cons] at hnodup
    set s₁ : State :=
      { clearSlot i s with
        heap := Function.update s.heap o.ref none
        trace := o.disconnect :: s.trace } with hs₁
    have hfirst : disconnectClient i s = some s₁ := by
      rw [Nat.add_zero] at hclient
      unfold disconnectClient
      simp only [hclient, hheap, Option.bind_eq_bind, Option.bind_some]
      rfl
    have hheld' : ∀ j o', todo[j]? = some o' →
        s₁.clients (i + 1 + j) = some o'.ref ∧ s₁.heap o'.ref = some o'.client := by
      intro j o' hj
      have hold := hheld (j + 1) o' (by simpa using hj)
      have hne : o'.ref ≠ o.ref := fun heq =>
        hnodup.1 (heq ▸ List.mem_map_of_mem (List.mem_of_getElem? hj))
      refine ⟨?_, (Function.update_of_ne hne _ _).trans hold.2⟩
      rw [show i + 1 + j = i + (j + 1) by omega]
      exact (Function.update_of_ne (by omega) _ _).trans hold.1
    obtain ⟨s', heq, htrace⟩ := ih hheld' hnodup.2
    refine ⟨s', ?_, ?_⟩
    · rw [List.length_cons, disconnectSlots, hfirst]
      exact heq
    · rw [htrace, hs₁]
      simp

/-- The disconnections of distinct clients that are about one of them. -/
theorem countP_about_disconnect (objs : List Proxied) (ref : ℕ) :
    (about ref (objs.map Proxied.disconnect).reverse).countP Event.isDisconnected =
      (objs.map Proxied.ref).count ref := by
  rw [about, List.countP_filter, List.countP_reverse, List.countP_map, List.count,
    List.countP_map]
  refine List.countP_congr fun o _ => ?_
  simp [Proxied.disconnect, Event.ref?, Event.isDisconnected]

/-! ### Runs -/

section Runs

variable {s : State}

/-- A slot holds a client that is coherent, and has an active direction. -/
def SlotOk (s : State) (slot : ℕ) : Prop :=
  ∃ o, Holds s (s.row slot) (some o) ∧ Coherent o ∧ o.finished = false

theorem refs_map_some (objs : List Proxied) : refs (objs.map some) =
    (objs.map Proxied.ref).map some := by
  simp [refs]

theorem reduceOption_map_some {α : Type*} (l : List α) : (l.map some).reduceOption = l := by
  simp [List.reduceOption]

theorem Shows.refs_eq {objs : List Proxied} (h : Shows s (objs.map some)) :
    objs.map Proxied.ref = liveRefs s.trace := by
  rw [← h.order, refs_map_some, reduceOption_map_some]

theorem Shows.refs_nodup {objs : List Proxied} (h : Shows s (objs.map some)) :
    (objs.map Proxied.ref).Nodup := by
  have hnodup := h.nodup
  rwa [refs_map_some, reduceOption_map_some] at hnodup

/-- The log of a client: it is connected, it has been disconnected, or it is still to come. -/
theorem Shows.log_cases {objs : List Proxied} (h : Shows s (objs.map some)) (ref : ℕ) :
    (∃ o ∈ objs, o.ref = ref ∧ about ref s.trace = o.log) ∨ Ended (about ref s.trace) ∧
      ref ∉ objs.map Proxied.ref ∨ about ref s.trace = [] := by
  by_cases hmem : ref ∈ objs.map Proxied.ref
  · obtain ⟨o, ho, rfl⟩ := List.mem_map.mp hmem
    obtain ⟨i, hi⟩ := List.mem_iff_getElem?.mp ho
    exact .inl ⟨o, ho, rfl, (h.slot i (some o) (by simp [hi])).2.2⟩
  · by_cases hlt : ref < s.nextRef
    · refine .inr (.inl ⟨h.gone ref hlt ?_, hmem⟩)
      rw [refs_map_some]
      simpa using hmem
    · exact .inr (.inr (h.fresh ref (Nat.le_of_not_lt hlt)))

/-- The slot of every object. -/
theorem Shows.slotOk {objs : List Proxied} (h : Shows s (objs.map some))
    (hlife : ∀ o ∈ objs, Life o) {slot : ℕ} (hlt : slot < s.clientsCount) : SlotOk s slot := by
  rw [h.count, List.length_map] at hlt
  have hmem : objs[slot] ∈ objs := List.getElem_mem hlt
  exact ⟨objs[slot], h.slot slot _ (by simp [hlt]), (hlife _ hmem).coherent, (hlife _ hmem).active⟩

/-- The pointers in the table are those to the objects. -/
theorem Shows.clients_eq {objs : List Proxied} (h : Shows s (objs.map some)) :
    (List.range s.clientsCount).map s.clients = (objs.map Proxied.ref).map some := by
  refine List.ext_getElem (by simp [h.count]) fun i h₁ h₂ => ?_
  have hlt : i < objs.length := by simpa using h₂
  have hrow := (h.slot i (some objs[i]) (by simp [hlt])).1
  simpa using (Row.mk.inj hrow).1

/-- The log of every client, connected or not. -/
theorem Shows.logOk {objs : List Proxied} (h : Shows s (objs.map some))
    (hlife : ∀ o ∈ objs, Life o) (ref : ℕ) :
    LogOk (about ref s.trace) ∧
      ((about ref s.trace).countP Event.isDisconnected = 1 ↔
        ∀ dir, DirEnded dir (about ref s.trace)) := by
  rcases h.log_cases ref with ⟨o, ho, -, hlog⟩ | ⟨hended, -⟩ | hnone
  · have hcoherent := (hlife o ho).coherent
    rw [hlog, hcoherent.present]
    refine ⟨hcoherent.logOk, fun hfalse => absurd hfalse Nat.zero_ne_one, fun hall => ?_⟩
    have hfinished := (finished_iff o).mpr fun dir => (hcoherent.ended dir).mp (hall dir)
    exact absurd hfinished (ne_true_of_eq_false (hlife o ho).active)
  · exact ⟨hended.log.1, fun _ => hended.log.2.2, fun _ => hended.log.2.1⟩
  · rw [hnone]
    refine ⟨trivial, fun hfalse => absurd hfalse Nat.zero_ne_one, fun hall => ?_⟩
    obtain ⟨e, he, -⟩ := hall .srcDst
    exact absurd he List.not_mem_nil

/-- **Termination.** It disconnects the clients that are left, in order, and after it every client
has been disconnected once. -/
theorem Shows.terminate {objs : List Proxied} (h : Shows s (objs.map some))
    (hlife : ∀ o ∈ objs, Life o) :
    ∃ s', Proxy.terminate s = some s' ∧
      s'.trace = (objs.map Proxied.disconnect).reverse ++ s.trace ∧
      ∀ ref srcFd dstFd, .connected ref srcFd dstFd ∈ s'.trace →
        (about ref s'.trace).countP Event.isDisconnected = 1 := by
  have hheld : ∀ j o, objs[j]? = some o →
      s.clients (0 + j) = some o.ref ∧ s.heap o.ref = some o.client := by
    intro j o hj
    obtain ⟨hrow, hheap, -⟩ := h.slot j (some o) (by simp [hj])
    rw [Nat.zero_add]
    exact ⟨(Row.mk.inj hrow).1, hheap⟩
  obtain ⟨s', heq, htrace⟩ := disconnectSlots_eq hheld h.refs_nodup
  refine ⟨s', ?_, htrace, fun ref srcFd dstFd hmem => ?_⟩
  · rw [Proxy.terminate, h.count, List.length_map]
    exact heq
  · rw [htrace, List.mem_append, List.mem_reverse, List.mem_map] at hmem
    have hold : .connected ref srcFd dstFd ∈ about ref s.trace := by
      rcases hmem with ⟨o, -, ho⟩ | hmem
      · exact absurd ho (by simp [Proxied.disconnect])
      · exact List.mem_filter.mpr ⟨hmem, decide_eq_true rfl⟩
    rw [htrace, about_append, List.countP_append, countP_about_disconnect]
    rcases h.log_cases ref with ⟨o, ho, href, hlog⟩ | ⟨hended, hnot⟩ | hnone
    · rw [hlog, (hlife o ho).coherent.present, ← href,
        List.count_eq_one_of_mem h.refs_nodup (List.mem_map_of_mem ho)]
    · rw [hended.log.2.1, List.count_eq_zero.mpr hnot]
    · rw [hnone] at hold
      exact absurd hold List.not_mem_nil

/-- **The slot table.** Whenever the main loop comes around, and so whenever it polls: every slot
in use holds a client, in the order in which they have connected, whose descriptors or their
complements are in its `struct pollfd`s with the requests of its active directions; at least one
is active. The calls of a client have gone to its own descriptors, none after its direction has
ended, and it has been disconnected, once, exactly if both directions have ended. No round
dereferences a bad pointer, and nor does the termination, which disconnects every client that is
left. -/
theorem slotTable_consistent (h : Reach s) :
    (∀ slot < s.clientsCount, SlotOk s slot) ∧ s.clientsCount ≤ maxClients ∧
      (List.range s.clientsCount).map s.clients = (liveRefs s.trace).map some ∧
      (∀ ref, LogOk (about ref s.trace) ∧
        ((about ref s.trace).countP Event.isDisconnected = 1 ↔
          ∀ dir, DirEnded dir (about ref s.trace))) ∧
      (∀ env, ∃ s', round env s = some s') ∧
      ∃ s' left, terminate s = some s' ∧ s'.trace = left ++ s.trace ∧
        (∀ e ∈ left, e.isDisconnected = true) ∧
        ∀ ref srcFd dstFd, .connected ref srcFd dstFd ∈ s'.trace →
          (about ref s'.trace).countP Event.isDisconnected = 1 := by
  obtain ⟨objs, hshows, hlife⟩ := h.shows
  refine ⟨fun slot hlt => hshows.slotOk hlife hlt, ?_, ?_, hshows.logOk hlife, fun env => ?_, ?_⟩
  · rw [hshows.count]
    exact hshows.bound
  · rw [hshows.clients_eq, hshows.refs_eq]
  · obtain ⟨s', -, hround, -⟩ := hshows.round hlife env
    exact ⟨s', hround⟩
  · obtain ⟨s', hend, htrace, honce⟩ := hshows.terminate hlife
    refine ⟨s', _, hend, htrace, fun e he => ?_, honce⟩
    rw [List.mem_reverse, List.mem_map] at he
    obtain ⟨o, -, rfl⟩ := he
    rfl

/-- A round in which a client connects and the sockets of the others have nothing to say. -/
def acceptRound (fd : ℕ) : RoundEnv where
  ready := fun _ => { pollin := true }
  accept :=
    { accept := some fd
      socket := some (fd + 1)
      connect := true
      close := true
      malloc := some (fun _ => 0, fun _ => 0) }
  sockets := { read := fun _ _ => .error .eagain, write := fun _ _ => .error .eagain }

/-- Two clients connect. -/
theorem slotTable_consistent_twoClients :
    ∃ s, Reach s ∧ s.clientsCount = 2 ∧ SlotOk s 1 ∧ liveRefs s.trace = [0, 1] := by
  have hrun : ((rounds [acceptRound 4, acceptRound 6] (start 3)).map fun s =>
      (s.clientsCount, liveRefs s.trace)) = some (2, [0, 1]) := by decide +kernel
  obtain ⟨s, hs, heq⟩ := Option.map_eq_some_iff.mp hrun
  have hreach := (Reach.start 3).rounds hs
  have hcount : s.clientsCount = 2 := congrArg Prod.fst heq
  exact ⟨s, hreach, hcount, (slotTable_consistent hreach).1 1 (by omega), congrArg Prod.snd heq⟩

end Runs

end OsTasks.Proxy
