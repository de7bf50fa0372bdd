import OsTasks.PortForwarding.PollSlots

/-!
# The system calls of one connection

The log of a manager mixes the calls of all connections. Restricted to one address it is a log of
this connection alone, to which every phase of `cm_poll` adds the calls of one slot operation. An
invariant of a connection and its own log, kept by every slot operation, is thus kept by `cm_poll`.

## Main definitions

* `SysCall.restrict`, `Manager.callsOf`: the calls about one address.
* `ObjectInvariant`: an invariant of a connection and its log that every slot operation keeps.
* `Objects`: the invariant holds for every address.

## Main results

* `Objects.cmPoll`, `Objects.cmConnect`: polling and connecting keep it.
-/

namespace OsTasks.PortForwarding

/-! ### Calls about one address -/

/-- A call, if it is about the connection at an address; of what `poll` reports, the part about
this connection. -/
def SysCall.restrict (ref : ℕ) : SysCall → Option SysCall
  | .opened r fd => if r = ref then some (.opened r fd) else none
  | .polled reported => some (.polled (reported.filter fun p => p.1 == ref))
  | .readv s fd cause => if s.ref = ref then some (.readv s fd cause) else none
  | .writev s fd cause => if s.ref = ref then some (.writev s fd cause) else none
  | .shutdown s fd how => if s.ref = ref then some (.shutdown s fd how) else none
  | .close s fd => if s.ref = ref then some (.close s fd) else none
  | .closeUnused r fd => if r = ref then some (.closeUnused r fd) else none
  | .closeListener _ | .closePipe _ => none

/-- The calls in a log about the connection at an address. -/
def callsOf (ref : ℕ) (log : List SysCall) : List SysCall := log.filterMap (SysCall.restrict ref)

theorem callsOf_append (ref : ℕ) (l₁ l₂ : List SysCall) :
    callsOf ref (l₁ ++ l₂) = callsOf ref l₁ ++ callsOf ref l₂ := List.filterMap_append

theorem callsOf_cons (ref : ℕ) (e : SysCall) (log : List SysCall) :
    callsOf ref (e :: log) = (e.restrict ref).toList ++ callsOf ref log := by
  unfold callsOf
  rw [List.filterMap_cons]
  cases e.restrict ref <;> rfl

/-- Calls that are about one address only. -/
def AboutOnly (ref : ℕ) (calls : List SysCall) : Prop :=
  ∀ e ∈ calls, ∀ r, e.restrict r = if ref = r then some e else none

theorem callsOf_aboutOnly {ref : ℕ} {calls : List SysCall} (h : AboutOnly ref calls) (r : ℕ) :
    callsOf r calls = if ref = r then calls else [] := by
  induction calls with
  | nil => split <;> rfl
  | cons e calls ih =>
    rw [callsOf_cons, h e List.mem_cons_self,
      ih fun e' he' => h e' (List.mem_cons_of_mem _ he')]
    split <;> rfl

/-- A log in which the connection does not occur: `poll` has never reported on it. -/
def QuietLog (log : List SysCall) : Prop := ∀ e ∈ log, e = .polled []

/-! ### The calls of the slot operations -/

/-- The calls of `close_sockets` on one slot. -/
theorem mem_closeSocket {s : Slot} {e : SysCall} (h : e ∈ (closeSocket s).2) :
    s.conn.state.closed = false ∧
      (shouldCloseSocket s.conn = true ∧ e = .close s (cmGetConnectionFd s.pfd) ∨
        shouldCloseSocket s.conn = false ∧
          (shouldClose s.conn.inState = true ∧
              e = tryShutdown s (cmGetConnectionFd s.pfd) .rd ∨
            shouldClose s.conn.outState = true ∧
              e = tryShutdown s (cmGetConnectionFd s.pfd) .wr)) := by
  unfold closeSocket isClosed at h
  dsimp only at h
  cases hclosed : s.conn.state.closed with
  | true => simp [hclosed] at h
  | false =>
    cases hclose : shouldCloseSocket s.conn with
    | true =>
      simp only [hclosed, hclose, if_true, Bool.false_eq_true, if_false, List.mem_singleton] at h
      exact ⟨rfl, .inl ⟨rfl, h⟩⟩
    | false =>
      simp only [hclosed, hclose, Bool.false_eq_true, if_false, List.mem_append] at h
      refine ⟨rfl, .inr ⟨rfl, ?_⟩⟩
      rcases h with h | h <;> split_ifs at h with hc
      · exact .inl ⟨(Bool.and_eq_true_iff.mp hc).1, List.mem_singleton.mp h⟩
      · exact absurd h List.not_mem_nil
      · exact .inr ⟨(Bool.and_eq_true_iff.mp hc).1, List.mem_singleton.mp h⟩
      · exact absurd h List.not_mem_nil

/-- The calls of `receive`. -/
theorem mem_receive {r : ReadResult} {s : Slot} {e : SysCall} (h : e ∈ (receive r s).2) :
    isAlive s.conn.inState = true ∧ s.pfd.revents.pollin = true ∧
      e = .readv s s.pfd.fd (getRwErrorCause (bufRead r s.conn.inBuf).1 r.errno) := by
  unfold receive at h
  split_ifs at h with h₁ h₂ <;> simp only [List.not_mem_nil] at h
  simp only [Bool.or_eq_true, not_or, Bool.not_eq_true, Bool.not_eq_false'] at h₁
  rw [Bool.and_eq_true] at h₂
  exact ⟨h₁.1, h₂.1, List.mem_singleton.mp h⟩

/-- The calls of `transmit`. -/
theorem mem_transmit {r : WriteResult} {s : Slot} {e : SysCall} (h : e ∈ (transmit r s).2) :
    isAlive s.conn.outState = true ∧ s.pfd.revents.pollout = true ∧
      e = .writev s s.pfd.fd (getRwErrorCause (bufWrite r s.conn.outBuf).1 r.errno) := by
  unfold transmit at h
  split_ifs at h with h₁ h₂ <;> simp only [List.not_mem_nil] at h
  simp only [Bool.or_eq_true, not_or, Bool.not_eq_true, Bool.not_eq_false'] at h₁
  rw [Bool.and_eq_true] at h₂
  exact ⟨h₁.1, h₂.1, List.mem_singleton.mp h⟩

theorem aboutOnly_closeSocket (s : Slot) : AboutOnly s.ref (closeSocket s).2 := by
  intro e he r
  obtain ⟨-, ⟨-, rfl⟩ | ⟨-, ⟨-, rfl⟩ | ⟨-, rfl⟩⟩⟩ := mem_closeSocket he <;> rfl

theorem aboutOnly_receive (r : ReadResult) (s : Slot) : AboutOnly s.ref (receive r s).2 := by
  intro e he ref
  obtain ⟨-, -, rfl⟩ := mem_receive he
  rfl

theorem aboutOnly_transmit (r : WriteResult) (s : Slot) : AboutOnly s.ref (transmit r s).2 := by
  intro e he ref
  obtain ⟨-, -, rfl⟩ := mem_transmit he
  rfl

theorem aboutOnly_serve (env : SocketEnv) (s : Slot) : AboutOnly s.ref (serve env s).2 := by
  unfold serve
  split_ifs with halive
  · have href : (receive (env.read s.ref) s).1.ref = s.ref :=
      (SlotOp.receive (env.read s.ref) s halive).keeps.ref
    intro e he
    rcases List.mem_append.mp he with he | he
    · exact aboutOnly_receive _ s e he
    · exact href ▸ aboutOnly_transmit _ _ e he
  · exact fun e he => absurd he List.not_mem_nil

/-! ### Invariants of one connection -/

/-- The slot of a client that has been accepted on `socket`. -/
def clientSlot (malloc : Malloc) (bufSize : ℕ+) (ref : ℕ) (socket : ℤ) (own : ℕ) : Slot where
  ref := ref
  conn :=
    { id := -1
      state := { new := true }
      inState := {}
      outState := {}
      inBuf := bufCreate malloc.inMem bufSize
      outBuf := bufCreate malloc.outMem bufSize }
  pfd := { fd := socket, events := { pollin := true }, revents := {} }
  own := own
  inc := ref

/-- The slot of a connection that has been opened to the service. -/
def serverSlot (malloc : Malloc) (inBufSize outBufSize : ℕ+) (id : ℤ) (inc ref fd : ℕ) : Slot where
  ref := ref
  conn :=
    { id := id
      state := {}
      inState := {}
      outState := {}
      inBuf := bufCreate malloc.inMem inBufSize
      outBuf := bufCreate malloc.outMem outBufSize }
  pfd := { fd := fd, events := { pollin := true }, revents := {} }
  own := fd
  inc := inc

/-- An invariant `I` of a connection and the log of its calls, the newest call first; what holds
besides, `J`, from the return of `poll` until the sockets are served; and what is left of the log,
`G`, when the connection has been removed. -/
structure ObjectInvariant (I J : List SysCall → Slot → Prop) (G : List SysCall → Prop) : Prop where
  close : ∀ log s, I log s → I ((closeSocket s).2.reverse ++ log) (closeSocket s).1
  arm : ∀ log s, I log s → I log (armOutput s)
  poll : ∀ ready log s, I log s →
    J (.polled [(s.ref, (pollSlot ready s).pfd.revents)] :: log) (pollSlot ready s)
  serve : ∀ env log s, J log s → I ((serve env s).2.reverse ++ log) (serve env s).1
  weaken : ∀ log s, J log s → I log s
  client : ∀ malloc bufSize ref (fd : ℕ) log, QuietLog log →
    J (.opened ref fd :: log) (clientSlot malloc bufSize ref fd fd)
  server : ∀ malloc inBufSize outBufSize id inc ref fd log, QuietLog log →
    I (.opened ref fd :: log) (serverSlot malloc inBufSize outBufSize id inc ref fd)
  unused : ∀ (ref fd : ℕ) log, QuietLog log → G (.closeUnused ref fd :: .opened ref fd :: log)
  leave : ∀ log s, I log s → shouldDelete s.conn.state = true → G log
  ignore : ∀ log, G log → G (.polled [] :: log)

/-- The invariant holds for every connection and its log; connections that have been removed have
left what they leave, and addresses that have not been allocated have no calls. -/
structure Objects (I : List SysCall → Slot → Prop) (G : List SysCall → Prop) (m : Manager) :
    Prop where
  nodup : (m.slots.map Slot.ref).Nodup
  allocated : ∀ s ∈ m.slots, s.ref < m.nextRef
  present : ∀ s ∈ m.slots, I (callsOf s.ref m.log) s
  gone : ∀ ref < m.nextRef, ref ∉ m.slots.map Slot.ref → G (callsOf ref m.log)
  fresh : ∀ ref, m.nextRef ≤ ref → QuietLog (callsOf ref m.log)

/-- A manager with one object, whose descriptor has been opened. -/
theorem objects_single {I : List SysCall → Slot → Prop} {G : List SysCall → Prop} {m : Manager}
    {s : Slot} {fd : ℕ} (hslots : m.slots = [s]) (href : s.ref = 0) (hnext : m.nextRef = 1)
    (hlog : m.log = [.opened 0 fd]) (hI : I [.opened 0 fd] s) : Objects I G m := by
  have hmem (t : Slot) (ht : t ∈ m.slots) : t = s := List.mem_singleton.mp (hslots ▸ ht)
  refine ⟨?_, fun t ht => ?_, fun t ht => ?_, fun ref hlt hnot => ?_, fun ref hle e he => ?_⟩
  · rw [hslots]
    exact List.nodup_singleton _
  · rw [hmem t ht, href, hnext]
    exact Nat.one_pos
  · rw [hmem t ht, href, hlog]
    exact hI
  · rw [hnext, Nat.lt_one_iff] at hlt
    rw [hslots, hlt, ← href] at hnot
    exact absurd List.mem_cons_self hnot
  · have hne : 0 ≠ ref := (Nat.lt_of_lt_of_le Nat.one_pos (hnext ▸ hle)).ne
    rw [hlog, callsOf_cons, SysCall.restrict, if_neg hne] at he
    exact absurd he List.not_mem_nil

/-! ### The phases of `cm_poll` -/

theorem callsOf_reverse (ref : ℕ) (log : List SysCall) :
    callsOf ref log.reverse = (callsOf ref log).reverse := List.filterMap_reverse

theorem callsOf_flatMap_of_notMem {f : Slot → Slot × List SysCall}
    (habout : ∀ s, AboutOnly s.ref (f s).2) {slots : List Slot} {ref : ℕ}
    (h : ref ∉ slots.map Slot.ref) : callsOf ref (slots.flatMap fun s => (f s).2) = [] := by
  induction slots with
  | nil => rfl
  | cons t slots ih =>
    rw [List.map_cons, List.mem_cons, not_or] at h
    rw [List.flatMap_cons, callsOf_append, callsOf_aboutOnly (habout t), if_neg (Ne.symm h.1),
      ih h.2, List.nil_append]

/-- The calls of a loop over slots about one address are those of the slot at this address. -/
theorem callsOf_flatMap {f : Slot → Slot × List SysCall} (habout : ∀ s, AboutOnly s.ref (f s).2)
    {slots : List Slot} (hnd : (slots.map Slot.ref).Nodup) {s : Slot} (hs : s ∈ slots) :
    callsOf s.ref (slots.flatMap fun s => (f s).2) = (f s).2 := by
  induction slots with
  | nil => exact absurd hs List.not_mem_nil
  | cons t slots ih =>
    rw [List.map_cons, List.nodup_cons] at hnd
    rw [List.flatMap_cons, callsOf_append, callsOf_aboutOnly (habout t)]
    rcases List.mem_cons.mp hs with rfl | hmem
    · rw [if_pos rfl, callsOf_flatMap_of_notMem habout hnd.1, List.append_nil]
    · have hne : t.ref ≠ s.ref := fun heq => hnd.1 (heq ▸ List.mem_map_of_mem hmem)
      rw [if_neg hne, ih hnd.2 hmem, List.nil_append]

variable {I J : List SysCall → Slot → Prop} {G : List SysCall → Prop} {m m' : Manager}

/-- A loop over the first slots of a manager. -/
theorem Objects.loop (h : Objects I G m) {f : Slot → Slot × List SysCall} {first rest : List Slot}
    (habout : ∀ s, AboutOnly s.ref (f s).2) (href : ∀ s, (f s).1.ref = s.ref)
    (hI : ∀ log, ∀ s ∈ first, I log s → J ((f s).2.reverse ++ log) (f s).1)
    (hrest : ∀ log, ∀ s ∈ rest, I log s → J log s)
    (hslots : m.slots = first ++ rest) (hslots' : m'.slots = (first.map fun s => (f s).1) ++ rest)
    (hlog : m'.log = (first.flatMap fun s => (f s).2).reverse ++ m.log)
    (hnext : m'.nextRef = m.nextRef) : Objects J G m' := by
  have hrefs : m'.slots.map Slot.ref = m.slots.map Slot.ref := by
    rw [hslots, hslots', List.map_append, List.map_append, List.map_map]
    congr 1
    exact List.map_congr_left fun s _ => href s
  have hnd := h.nodup
  rw [hslots, List.map_append, List.nodup_append] at hnd
  have hcalls : ∀ ref, ref ∉ first.map Slot.ref → callsOf ref m'.log = callsOf ref m.log := by
    intro ref hnot
    rw [hlog, callsOf_append, callsOf_reverse, callsOf_flatMap_of_notMem habout hnot]
    rfl
  refine ⟨hrefs ▸ h.nodup, fun s' hs' => ?_, fun s' hs' => ?_, fun ref hlt hnot => ?_,
    fun ref hle => ?_⟩
  · have hmem : s'.ref ∈ m.slots.map Slot.ref := hrefs ▸ List.mem_map_of_mem hs'
    obtain ⟨s, hs, heq⟩ := List.mem_map.mp hmem
    rw [← heq, hnext]
    exact h.allocated s hs
  · rw [hslots', List.mem_append] at hs'
    rcases hs' with hs' | hs'
    · obtain ⟨s, hs, rfl⟩ := List.mem_map.mp hs'
      rw [href, hlog, callsOf_append, callsOf_reverse, callsOf_flatMap habout hnd.1 hs]
      exact hI _ s hs (h.present s (hslots ▸ List.mem_append_left _ hs))
    · rw [hcalls s'.ref fun hmem => hnd.2.2 _ hmem _ (List.mem_map_of_mem hs') rfl]
      exact hrest _ s' hs' (h.present s' (hslots ▸ List.mem_append_right _ hs'))
  · rw [hrefs] at hnot
    have hnot' : ref ∉ first.map Slot.ref := fun hmem =>
      hnot (by rw [hslots, List.map_append]; exact List.mem_append_left _ hmem)
    rw [hcalls ref hnot']
    exact h.gone ref (hnext ▸ hlt) hnot
  · rw [hcalls ref fun hmem => ?_]
    · exact h.fresh ref (hnext ▸ hle)
    · obtain ⟨s, hs, heq⟩ := List.mem_map.mp hmem
      have hlt := h.allocated s (hslots ▸ List.mem_append_left _ hs)
      omega

theorem Objects.closeSockets (h : Objects I G m) (hinv : ObjectInvariant I J G) :
    Objects I G (closeSockets m) :=
  h.loop aboutOnly_closeSocket (fun s => (SlotOp.close s).keeps.ref)
    (fun log s _ hs => hinv.close log s hs) (fun _ _ _ hs => hs)
    (List.append_nil _).symm (List.append_nil _).symm rfl rfl

theorem Objects.shrink (h : Objects I G m) (hinv : ObjectInvariant I J G) :
    Objects I G (shrink m) := by
  have hsub : (PortForwarding.shrink m).slots.Sublist m.slots := by
    rw [slots_shrink]
    exact List.filter_sublist
  refine ⟨(hsub.map _).nodup h.nodup, fun s hs => h.allocated s (hsub.subset hs),
    fun s hs => h.present s (hsub.subset hs), fun ref hlt hnot => ?_, h.fresh⟩
  by_cases hmem : ref ∈ m.slots.map Slot.ref
  · obtain ⟨s, hs, rfl⟩ := List.mem_map.mp hmem
    refine hinv.leave _ s (h.present s hs) ?_
    by_contra hkeep
    rw [slots_shrink] at hnot
    refine hnot (List.mem_map_of_mem (List.mem_filter.mpr ⟨hs, ?_⟩))
    rw [Bool.not_eq_true', Bool.eq_false_of_not_eq_true hkeep]
  · exact h.gone ref hlt hmem

theorem Objects.beforePoll (h : Objects I G m) (hinv : ObjectInvariant I J G) :
    Objects I G (beforePoll m) := by
  have h' := (h.closeSockets hinv).shrink hinv
  refine Objects.loop (f := fun s => (armOutput s, [])) h'
    (fun s e he => absurd he List.not_mem_nil)
    (fun s => (SlotOp.arm s).keeps.ref) (fun log s _ hs => hinv.arm log s hs) (fun _ _ _ hs => hs)
    (List.append_nil _).symm (List.append_nil _).symm ?_ rfl
  have hnone : (PortForwarding.shrink (PortForwarding.closeSockets m)).slots.flatMap
      (fun s => (armOutput s, ([] : List SysCall)).2) = [] :=
    List.flatMap_eq_nil_iff.mpr fun _ _ => rfl
  rw [hnone]
  rfl

/-- Changes of the connections that make no calls. -/
theorem Objects.change (h : Objects I G m) (hrefs : m'.slots.map Slot.ref = m.slots.map Slot.ref)
    (hI : ∀ s' ∈ m'.slots, ∃ s ∈ m.slots, s.ref = s'.ref ∧ ∀ log, I log s → I log s')
    (hlog : m'.log = m.log) (hnext : m'.nextRef = m.nextRef) : Objects I G m' := by
  refine ⟨hrefs ▸ h.nodup, fun s' hs' => ?_, fun s' hs' => ?_, fun ref hlt hnot => ?_,
    fun ref hle => ?_⟩
  · obtain ⟨s, hs, href, -⟩ := hI s' hs'
    rw [← href, hnext]
    exact h.allocated s hs
  · obtain ⟨s, hs, href, hkeep⟩ := hI s' hs'
    rw [hlog, ← href]
    exact hkeep _ (h.present s hs)
  · rw [hlog]
    exact h.gone ref (hnext ▸ hlt) (hrefs ▸ hnot)
  · rw [hlog]
    exact h.fresh ref (hnext ▸ hle)

/-- What `poll` reports about one address. -/
theorem filter_reported {slots : List Slot} (hnd : (slots.map Slot.ref).Nodup) {s : Slot}
    (hs : s ∈ slots) : (slots.map fun s => (s.ref, s.pfd.revents)).filter (fun p => p.1 == s.ref) =
      [(s.ref, s.pfd.revents)] := by
  induction slots with
  | nil => exact absurd hs List.not_mem_nil
  | cons t slots ih =>
    rw [List.map_cons, List.nodup_cons] at hnd
    rw [List.map_cons, List.filter_cons]
    rcases List.mem_cons.mp hs with rfl | hmem
    · have hrest :
          (slots.map fun s => (s.ref, s.pfd.revents)).filter (fun p => p.1 == s.ref) = [] := by
        rw [List.filter_eq_nil_iff]
        intro p hp
        obtain ⟨u, hu, rfl⟩ := List.mem_map.mp hp
        simp only [beq_iff_eq]
        exact fun heq => hnd.1 (heq ▸ List.mem_map_of_mem hu)
      simp [hrest]
    · have hne : t.ref ≠ s.ref := fun heq => hnd.1 (heq ▸ List.mem_map_of_mem hmem)
      simp only [beq_eq_false_iff_ne.mpr hne, Bool.false_eq_true, if_false]
      exact ih hnd.2 hmem

theorem Objects.pollAll (h : Objects I G m) (hinv : ObjectInvariant I J G) (ready : ℕ → PollMask) :
    Objects J G (pollAll ready m) := by
  have hrefs : (PortForwarding.pollAll ready m).slots.map Slot.ref = m.slots.map Slot.ref := by
    rw [slots_pollAll, List.map_map]
    rfl
  have hlog : ∀ ref, callsOf ref (PortForwarding.pollAll ready m).log =
      ((SysCall.polled ((PortForwarding.pollAll ready m).slots.map fun s =>
        (s.ref, s.pfd.revents))).restrict ref).toList ++ callsOf ref m.log := fun ref =>
    callsOf_cons ref _ _
  have hnone : ∀ ref, ref ∉ m.slots.map Slot.ref →
      callsOf ref (PortForwarding.pollAll ready m).log = .polled [] :: callsOf ref m.log := by
    intro ref hnot
    have hfilter : ((PortForwarding.pollAll ready m).slots.map fun s =>
        (s.ref, s.pfd.revents)).filter (fun p => p.1 == ref) = [] := by
      rw [List.filter_eq_nil_iff]
      intro p hp
      obtain ⟨s, hs, rfl⟩ := List.mem_map.mp hp
      simp only [beq_iff_eq]
      exact fun heq => hnot (heq ▸ hrefs ▸ List.mem_map_of_mem hs)
    rw [hlog, SysCall.restrict, hfilter]
    rfl
  refine ⟨hrefs ▸ h.nodup, fun s' hs' => ?_, fun s' hs' => ?_, fun ref hlt hnot => ?_,
    fun ref hle => ?_⟩
  · obtain ⟨s, hs, rfl⟩ := List.mem_map.mp hs'
    exact h.allocated s hs
  · rw [hlog, SysCall.restrict, filter_reported (hrefs ▸ h.nodup) hs']
    obtain ⟨s, hs, rfl⟩ := List.mem_map.mp hs'
    exact hinv.poll ready _ s (h.present s hs)
  · rw [hrefs] at hnot
    rw [hnone ref hnot]
    exact hinv.ignore _ (h.gone ref hlt hnot)
  · rw [hnone ref fun hmem => ?_]
    · exact List.forall_mem_cons.mpr ⟨rfl, h.fresh ref hle⟩
    · obtain ⟨s, hs, heq⟩ := List.mem_map.mp hmem
      have hlt := h.allocated s hs
      change m.nextRef ≤ ref at hle
      omega

/-- A new connection comes behind the others, and its first call is the one that opened it. -/
theorem Objects.add (h : Objects I G m) (s : Slot) (calls : List SysCall) (href : s.ref = m.nextRef)
    (habout : AboutOnly m.nextRef calls) (hI : ∀ log, QuietLog log → I (calls ++ log) s)
    (hslots : m'.slots = m.slots ++ [s])
    (hlog : m'.log = calls ++ m.log) (hnext : m'.nextRef = m.nextRef + 1) : Objects I G m' := by
  have hold : ∀ ref, ref ≠ m.nextRef → callsOf ref m'.log = callsOf ref m.log := by
    intro ref hne
    rw [hlog, callsOf_append, callsOf_aboutOnly habout, if_neg (Ne.symm hne)]
    rfl
  have hnew : callsOf m.nextRef m'.log = calls ++ callsOf m.nextRef m.log := by
    rw [hlog, callsOf_append, callsOf_aboutOnly habout, if_pos rfl]
  refine ⟨?_, fun t ht => ?_, fun t ht => ?_, fun ref hlt hnot => ?_, fun ref hle => ?_⟩
  · rw [hslots, List.map_append, List.map_cons, List.map_nil, List.nodup_append]
    refine ⟨h.nodup, List.nodup_singleton _, fun a ha b hb => ?_⟩
    obtain ⟨t, ht, rfl⟩ := List.mem_map.mp ha
    have hlt := h.allocated t ht
    rw [List.mem_singleton] at hb
    omega
  · rw [hslots, List.mem_append, List.mem_singleton] at ht
    rcases ht with ht | rfl
    · have hlt := h.allocated t ht
      omega
    · omega
  · rw [hslots, List.mem_append, List.mem_singleton] at ht
    rcases ht with ht | rfl
    · rw [hold _ (h.allocated t ht).ne]
      exact h.present t ht
    · rw [href, hnew]
      exact hI _ (h.fresh _ (Nat.le_refl _))
  · rw [hslots, List.map_append, List.mem_append, List.map_singleton, List.mem_singleton, href,
      not_or] at hnot
    rw [hold ref hnot.2]
    exact h.gone ref (by omega) hnot.1
  · rw [hold ref (by omega)]
    exact h.fresh ref (by omega)

/-- What `accept` is assumed to return where the descriptors of the connections matter. -/
def AcceptEnv.Expected (env : AcceptEnv) : Prop :=
  match env.result with
  | .ok _ => True
  | .error e => e = .eintr ∨ e = .eagain

theorem Objects.acceptConnection (h : Objects J G m) (hinv : ObjectInvariant I J G)
    {env : AcceptEnv}
    (hexpected : env.Expected ∨
      ∀ malloc bufSize ref log, QuietLog log → J log (clientSlot malloc bufSize ref (-1) 0))
    (hm' : acceptConnection env m = .ok m') : Objects J G m' := by
  unfold PortForwarding.acceptConnection acceptSocket makeConnection at hm'
  by_cases hfull : m.slots.length = managerMaxConnections
  · rw [if_pos hfull] at hm'
    obtain rfl := Except.ok.inj hm'
    exact h
  · rw [if_neg hfull] at hm'
    cases hresult : env.result with
    | ok fd =>
      rw [hresult] at hm'
      cases hmalloc : env.malloc.ok with
      | false => simp [hmalloc] at hm'
      | true =>
        simp only [hmalloc, if_true, cmAddConnection, if_neg hfull] at hm'
        obtain rfl := Except.ok.inj hm'
        exact h.add (clientSlot env.malloc m.bufSize m.nextRef fd fd) [.opened m.nextRef fd] rfl
          (fun e he r => by rw [List.mem_singleton.mp he]; rfl)
          (hinv.client env.malloc m.bufSize m.nextRef fd) rfl rfl rfl
    | error e =>
      rw [hresult] at hm'
      dsimp only at hm'
      split_ifs at hm' with hquiet hmalloc
      · obtain rfl := Except.ok.inj hm'
        exact h
      · have hclient := hexpected.resolve_left fun hexp => hquiet (by
          rwa [AcceptEnv.Expected, hresult] at hexp)
        simp only [cmAddConnection, if_neg hfull] at hm'
        obtain rfl := Except.ok.inj hm'
        exact h.add (clientSlot env.malloc m.bufSize m.nextRef (-1) 0) [] rfl
          (fun e he => absurd he List.not_mem_nil) (hclient env.malloc m.bufSize m.nextRef)
          rfl rfl rfl

theorem Objects.imp (h : Objects J G m) (hweak : ∀ log s, J log s → I log s) : Objects I G m :=
  ⟨h.nodup, h.allocated, fun s hs => hweak _ s (h.present s hs), h.gone, h.fresh⟩

theorem Objects.serveFirst (h : Objects J G m) (hinv : ObjectInvariant I J G) (env : SocketEnv)
    (count : ℕ) : Objects I G (serveFirst env count m) :=
  h.loop (aboutOnly_serve env)
    (fun s => (serve_slotRun env s).keeps.ref) (fun log s _ hs => hinv.serve env log s hs)
    (fun log s _ hs => hinv.weaken log s hs) (List.take_append_drop _ _).symm rfl rfl rfl

/-- **Polling keeps an invariant of the connections and their logs.** -/
theorem Objects.cmPoll (h : Objects I G m) (hinv : ObjectInvariant I J G) {env : PollEnv}
    (hexpected : env.accept.Expected ∨
      ∀ malloc bufSize ref log, QuietLog log → J log (clientSlot malloc bufSize ref (-1) 0))
    {cause : CloseCause} (hm' : cmPoll env m = .ok (m', cause)) : Objects I G m' := by
  have hbefore := h.beforePoll hinv
  unfold PortForwarding.cmPoll at hm'
  dsimp only at hm'
  split at hm'
  · obtain ⟨rfl, -⟩ := Prod.mk.inj (Except.ok.inj hm')
    exact hbefore
  · rename_i ready hready
    have hpolled := hbefore.pollAll hinv ready
    split_ifs at hm'
    · obtain ⟨rfl, -⟩ := Prod.mk.inj (Except.ok.inj hm')
      exact hpolled.imp hinv.weaken
    · cases haccept : PortForwarding.acceptConnection env.accept
        (PortForwarding.pollAll ready (PortForwarding.beforePoll m)) with
      | error fault => simp [haccept, bind, Except.bind] at hm'
      | ok m₁ =>
        simp only [haccept, bind, Except.bind] at hm'
        obtain ⟨rfl, -⟩ := Prod.mk.inj (Except.ok.inj hm')
        have haccepted := hpolled.acceptConnection hinv hexpected haccept
        exact ((haccepted.serveFirst hinv env.sockets _).closeSockets hinv).shrink hinv
    · obtain ⟨rfl, -⟩ := Prod.mk.inj (Except.ok.inj hm')
      exact ((hpolled.serveFirst hinv env.sockets _).closeSockets hinv).shrink hinv

/-- **Connecting keeps it too.** -/
theorem Objects.cmConnect (h : Objects I G m) (hinv : ObjectInvariant I J G) (env : ConnectEnv)
    (inBufSize outBufSize : ℕ+) (id : ℤ) (inc : ℕ) :
    Objects I G (cmConnect env m inBufSize outBufSize id inc).2 := by
  unfold PortForwarding.cmConnect makeConnection
  by_cases hfull : m.slots.length = managerMaxConnections
  · rw [if_pos hfull]
    exact h
  · rw [if_neg hfull]
    cases env.malloc.ok with
    | false => exact h
    | true =>
      cases env.socket with
      | none => exact h
      | some fd =>
        cases env.connect with
        | true =>
          simp only [cmAddConnection, if_true]
          rw [if_neg hfull]
          exact h.add (serverSlot env.malloc inBufSize outBufSize id inc m.nextRef fd)
            [.opened m.nextRef fd] rfl
            (fun e he r => by rw [List.mem_singleton.mp he]; rfl)
            (hinv.server env.malloc inBufSize outBufSize id inc m.nextRef fd) rfl rfl rfl
        | false =>
          -- the address is used up by a connection that is never in the list
          have habout : AboutOnly m.nextRef [.closeUnused m.nextRef fd, .opened m.nextRef fd] := by
            intro e he r
            simp only [List.mem_cons, List.not_mem_nil, or_false] at he
            rcases he with rfl | rfl <;> rfl
          have hold : ∀ ref, ref ≠ m.nextRef →
              callsOf ref ([SysCall.closeUnused m.nextRef fd, .opened m.nextRef fd] ++ m.log) =
                callsOf ref m.log := by
            intro ref hne
            rw [callsOf_append, callsOf_aboutOnly habout, if_neg (Ne.symm hne)]
            rfl
          refine ⟨h.nodup, fun s hs => (h.allocated s hs).trans (Nat.lt_succ_self _),
            fun s hs => ?_,
            fun ref hlt hnot => ?_, fun ref hle => ?_⟩
          · exact (hold s.ref (h.allocated s hs).ne) ▸ h.present s hs
          · rcases Nat.lt_succ_iff_lt_or_eq.mp hlt with hlt | rfl
            · exact (hold ref hlt.ne) ▸ h.gone ref hlt hnot
            · have hcalls : callsOf m.nextRef
                  ([SysCall.closeUnused m.nextRef fd, .opened m.nextRef fd] ++ m.log) =
                    [.closeUnused m.nextRef fd, .opened m.nextRef fd] ++
                      callsOf m.nextRef m.log := by
                rw [callsOf_append, callsOf_aboutOnly habout, if_pos rfl]
              exact hcalls ▸ hinv.unused m.nextRef fd _ (h.fresh _ (Nat.le_refl _))
          · have hle' : m.nextRef + 1 ≤ ref := hle
            exact (hold ref (by omega)) ▸ h.fresh ref (by omega)

end OsTasks.PortForwarding
