import OsTasks.PortForwarding.Waiting

/-!
# More clients than ids

Clients can come one after the other and wait for the answer of the peer until all ids are taken.
The next client is accepted without an id, so it is not announced and its socket is read. When an id
becomes free, it is announced with what has been read from it, and the pump, which is entered in the
same update, encodes that.

## Main definitions

* `Crowd`: an accepting endpoint with waiting clients only.
* `LatePolled`, `Late`: all ids were taken when a client came; before and after one of them is given
  back.

## Main results

* `crowd_run`: any number of clients up to `255` can wait.
* `late_run`: data of the next client is encoded although `CMD_ACK` was never handled.
-/

namespace OsTasks.PortForwarding

variable {s : Slot} {env : SocketEnv} {ready : ℕ → PollMask} {conns : Conns} {c c' : Controller}
  {tunnel : Slot} {handler : Controller → Command → Controller}

/-! ### Many clients -/

/-- A tunnel from which nothing has come, with room for output. -/
structure TunnelFree (room : ℕ) (s : Slot) : Prop where
  ref : s.ref = 0
  id : s.conn.id = 0
  state : s.conn.state = {}
  inState : s.conn.inState = {}
  outState : s.conn.outState = {}
  inBuf : s.conn.inBuf.length = 0
  capacity : 5 ≤ s.conn.inBuf.capacity
  outBuf : room ≤ bufFreeLength s.conn.outBuf

/-- A connection from which bytes can be read. -/
structure Readable (s : Slot) : Prop where
  unwrapped : s.conn.inBuf.Unwrapped
  listens : Listens s.pfd

theorem TunnelFree.intact {room : ℕ} (h : TunnelFree room s) : Intact s.conn :=
  intact_of_new (by rw [h.state]; rfl) h.inState h.outState

theorem TunnelFree.room {room : ℕ} (h : TunnelFree room s) : bufFull s.conn.inBuf = false := by
  have hcap := h.capacity
  rw [bufFull, beq_eq_false_iff_ne, h.inBuf]
  omega

/-- No command but `CMD_CLOSE` has been handled. -/
def OnlyCloses (trace : List PumpEvent) : Prop :=
  ∀ command target stack opened, .handled command target stack opened ∈ trace →
    command.cmd = cmdClose

theorem OnlyCloses.cons {trace : List PumpEvent} {e : PumpEvent} (h : OnlyCloses trace)
    (he : ∀ command target stack opened, e = .handled command target stack opened →
      command.cmd = cmdClose) : OnlyCloses (e :: trace) := by
  rintro command target stack opened hmem
  rcases List.mem_cons.mp hmem with heq | hmem
  · exact he _ _ _ _ heq.symm
  · exact h _ _ _ _ hmem

/-- An accepting endpoint whose `n` clients wait: they have the ids `1..n`, and the others are
free. -/
structure Crowd (n : ℕ) (c : Controller) : Prop where
  slots : ∃ tunnel clients, c.slots = tunnel :: clients ∧ TunnelFree (5 * (257 - n)) tunnel ∧
    Readable tunnel ∧ ∀ s ∈ clients, Waits s.conn
  ids : c.slots.map (fun s => s.conn.id) = (List.range (n + 1)).map Int.ofNat
  freeIds : c.freeIds = (List.range' (n + 1) (255 - n)).map Int.ofNat
  queue : c.pump.cmdQueue.length = 0
  sendingTo : c.pump.sendingTo = -1
  index : c.pump.currentIndex = 0
  acceptor : 0 ≤ c.manager.acceptor
  accepting : c.accepting = true
  trace : OnlyCloses c.trace

theorem crowd_start (env : StartEnv) : Crowd 0 (startController env sampleBufSize true) where
  slots := ⟨_, [], rfl, ⟨rfl, rfl, rfl, rfl, rfl, rfl,
    (by decide : 5 ≤ (sampleBufSize * tunnelBufSizeMultiplier : ℕ+).val),
    (by decide : 1285 ≤ (sampleBufSize * tunnelBufSizeMultiplier : ℕ+).val)⟩,
    ⟨Nat.zero_le _, Int.natCast_nonneg _, rfl⟩, fun _ hs => absurd hs List.not_mem_nil⟩
  ids := rfl
  freeIds := rfl
  queue := rfl
  sendingTo := rfl
  index := rfl
  acceptor := Int.natCast_nonneg _
  accepting := rfl
  trace _ _ _ _ he := absurd he List.not_mem_nil

/-- Waiting clients keep their connections in `cm_poll`. -/
theorem filterMap_of_waits {slots : List Slot} (h : ∀ s ∈ slots, Waits s.conn) (env : SocketEnv)
    (ready : ℕ → PollMask) : ∃ pfd : Slot → Pollfd,
      slots.filterMap (PortForwarding.pollTurn env ready) =
        slots.map fun s => { s with pfd := pfd s } := by
  refine ⟨fun s => ((PortForwarding.pollTurn env ready s).getD s).pfd, ?_⟩
  rw [← List.filterMap_eq_map]
  refine List.filterMap_congr fun s hs => ?_
  obtain ⟨pfd, hpfd⟩ : ∃ pfd, PortForwarding.pollTurn env ready s = some { s with pfd := pfd } :=
    (h s hs).pollTurn
  simp only [Function.comp_apply, hpfd, Option.getD_some]

/-- **A client comes to waiting clients**: the call of `cm_poll`. -/
theorem cmPoll_of_crowd (env : PollEnv) {tunnel' : Slot} {clients : List Slot} {fd : ℕ}
    (hslots : c.slots = tunnel :: clients) (hwaits : ∀ s ∈ clients, Waits s.conn)
    (hcount : clients.length < 1021) (hacceptor : 0 ≤ c.manager.acceptor)
    (hready : env.ready = some ready) (hpipe : env.pipe ≠ .shutdown) (hclient : env.client = true)
    (hresult : env.accept.result = .ok fd) (hmalloc : env.accept.malloc.ok = true)
    (htunnel : PortForwarding.pollTurn env.sockets ready tunnel = some tunnel') :
    ∃ m' clients', cmPoll env c.manager = .ok (m', .none) ∧
      m'.slots = (tunnel' :: clients') ++ [newClient env.accept.malloc c.manager fd] ∧
      m'.acceptor = c.manager.acceptor ∧ (∀ s ∈ clients', Waits s.conn) ∧
      clients'.map (fun s => s.conn.id) = clients.map fun s => s.conn.id := by
  obtain ⟨m', hpoll, hslots', hacceptor'⟩ := cmPoll_of_client hready hpipe hclient hacceptor
    hresult hmalloc (by
      change c.slots.length < managerMaxConnections
      rw [hslots, List.length_cons, managerMaxConnections]
      omega)
  obtain ⟨pfd, hclients⟩ := filterMap_of_waits hwaits env.sockets ready
  refine ⟨m', clients.map fun s => { s with pfd := pfd s }, hpoll, ?_, hacceptor', fun s' hs' => ?_,
    by rw [List.map_map]; rfl⟩
  · rw [hslots', ← hclients]
    change c.slots.filterMap _ ++ _ = _
    rw [hslots, List.filterMap_cons_some htunnel]
  · obtain ⟨s, hs, rfl⟩ := List.mem_map.mp hs'
    exact hwaits s hs

/-- An endpoint `c'` that has announced the client `t`, which has got the id `k`, and enters the
pump; `l` are the other connections. -/
structure EntersWith (c c' : Controller) (l : List Slot) (t : Slot) (k : ℕ) : Prop where
  changes : changes c.sorted c.sort = .ok (c', .inr c.sorted)
  slots : c'.slots = l ++ [t.announced]
  freeIds : c.freeIds = (k : ℤ) :: c'.freeIds
  queue : c'.pump.cmdQueue.length = 1
  sendingTo : c'.pump.sendingTo = c.pump.sendingTo
  index : c'.pump.currentIndex = c.pump.currentIndex
  acceptor : c'.manager.acceptor = c.manager.acceptor
  accepting : c'.accepting = c.accepting
  trace : c'.trace = .queued t cmdNew :: c.trace
  ready : PumpReady c.sorted c'
  lookup : ∀ i s, lookup c'.slots c.sorted i = some s ↔ s ∈ c'.slots ∧ s.conn.id = i

/-- The slot with another id. -/
def Slot.withId (s : Slot) (id : ℤ) : Slot := { s with conn := { s.conn with id := id } }

/-- **The last client is announced**: the call of `handle_state_changes`, when there is an id for
it. -/
theorem entersWith_of_new {t : Slot} {clients : List Slot} {room k : ℕ} (hwf : WellFormed c)
    (hslots : c.slots = (tunnel :: clients) ++ [t]) (htunnel : TunnelFree room tunnel)
    (hwaits : ∀ s ∈ clients, Waits s.conn) (hstate : t.conn.state = { new := true })
    (hin : t.conn.inState = {}) (hout : t.conn.outState = {}) (hid : t.conn.id = -1)
    (hfree : c.freeIds.head? = some (k : ℤ)) (hk : 1 ≤ k) (hle : k ≤ 255)
    (hids : ((tunnel :: clients).map (fun s => s.conn.id) ++ [(k : ℤ)]).Nodup)
    (hpos : ∀ s ∈ clients, 0 ≤ s.conn.id) (hqueue : c.pump.cmdQueue.length = 0) :
    ∃ c', EntersWith c c' (tunnel :: clients) (t.withId k) k := by
  have hass := hwf.sort_assigns
  rw [hslots] at hass
  obtain ⟨hnil, -⟩ | ⟨id, hstack, hsorted⟩ := hass.append_client
    (List.forall_mem_cons.mpr ⟨htunnel.id.ge, hpos⟩) (by omega)
  · rw [hnil] at hfree
    exact absurd hfree.symm (Option.some_ne_none _)
  rw [hstack, List.head?_cons] at hfree
  obtain rfl := Option.some.inj hfree
  change c.sort.slots = (tunnel :: clients) ++ [t.withId k] at hsorted
  have hlive {u : Slot} (hu : u.conn.state.delete = false) :
      ∀ s ∈ (tunnel :: clients) ++ [u], s.conn.state.delete = false := by
    intro s hs
    rcases List.mem_append.mp hs with hs | hs
    · rcases List.mem_cons.mp hs with rfl | hs
      · rw [htunnel.state]
      · rw [(hwaits s hs).state]
    · rwa [List.mem_singleton.mp hs]
  have hdel : ∀ s ∈ c.sort.slots, s.conn.state.delete = false := by
    rw [hsorted]
    exact hlive (congrArg ConnState.delete hstate)
  have hnd := hwf.sort.nodup
  have hlookup {i : ℕ} {s : Slot} : lookup c.sort.slots c.sorted i = some s ↔
      s ∈ c.sort.slots ∧ s.conn.id = i :=
    (hwf.connsOk_sort hdel).lookup_iff_mem hnd (by
      rw [hsorted, List.map_append]
      exact hids) hdel
  have ht : lookup c.sort.slots c.sorted k = some (t.withId k) :=
    hlookup.mpr ⟨by rw [hsorted]; exact List.mem_append_right _ List.mem_cons_self, rfl⟩
  have htun : lookup c.sort.slots c.sorted 0 = some tunnel :=
    hlookup.mpr ⟨by rw [hsorted]; exact List.mem_cons_self, htunnel.id⟩
  obtain ⟨q, hq⟩ : ∃ q, cmdqEnqueue c.sort.pump.cmdQueue
      ⟨cmdNew, toByte (t.withId k).conn.id, (t.withId k).inc⟩ = some q := by
    refine Option.ne_none_iff_exists'.mp fun hnone => ?_
    have hfull := (cmdqEnqueue_eq_none_iff _ _).mp hnone
    have hoff := c.pump.cmdQueue.offset_lt
    change c.pump.cmdQueue.length = c.pump.cmdQueue.cap at hfull
    omega
  have hloop := stateLoop_of_new hnd hk hle ht hstate hin hout hq fun i hi hne u hu => by
    obtain ⟨hmem, huid⟩ := hlookup.mp hu
    rw [hsorted] at hmem
    rcases List.mem_append.mp hmem with hmem | hmem
    · rcases List.mem_cons.mp hmem with rfl | hmem
      · rw [htunnel.id] at huid
        omega
      · exact hwaits u hmem
    · rw [List.mem_singleton.mp hmem] at huid
      exact absurd (Int.ofNat_inj.mp huid).symm hne
  have hchanges : changes c.sorted c.sort =
      .ok (c.sort.announceClient (t.withId k) q, .inr c.sorted) := by
    unfold changes
    rw [htun]
    dsimp only
    rw [handleStateChanges, htunnel.state, htunnel.inState, htunnel.outState, hloop]
    rfl
  have hslots' : (c.sort.announceClient (t.withId k) q).slots =
      (tunnel :: clients) ++ [(t.withId k).announced] := by
    change modifyConn c.sort.slots (t.withId k).ref (fun _ => (t.withId k).announced.conn) = _
    rw [hsorted] at hnd ⊢
    exact modifyConn_last hnd _
  obtain ⟨hrun, hconns'⟩ := changes_run hwf.sort (hwf.connsOk_sort hdel) hchanges
  replace hconns' := hconns' c.sorted rfl
  have hwf' := hrun.wellFormed hwf.sort
  refine ⟨_, hchanges, hslots', hstack, ?_, rfl, rfl, rfl, rfl, rfl, hwf'.pumpReady hconns',
    fun i s => hconns'.lookup_iff_mem hwf'.nodup ?_ ?_⟩
  · exact (length_cmdqEnqueue hq).trans (congrArg (· + 1) hqueue)
  · rw [hslots', List.map_append]
    exact hids
  · rw [hslots']
    exact hlive rfl

/-- An endpoint that has sent the announcement of the client `t` and comes to the loop over the
connections. -/
structure SentWith (room : ℕ) (conns : Conns) (c c' : Controller) (tunnel : Slot)
    (clients : List Slot) (t : Slot) : Prop where
  slots : c'.slots = (tunnel :: clients) ++ [t.announced]
  tunnelFree : TunnelFree room tunnel
  freeIds : c'.freeIds = c.freeIds
  queue : c'.pump.cmdQueue.length = 0
  sendingTo : c'.pump.sendingTo = c.pump.sendingTo
  index : c'.pump.currentIndex = c.pump.currentIndex
  acceptor : c'.manager.acceptor = c.manager.acceptor
  accepting : c'.accepting = c.accepting
  trace : ∃ command, c'.trace = .sent command :: c.trace
  nodup : (c'.slots.map Slot.ref).Nodup
  entries : EntriesAt conns c'.slots
  lookup_tunnel : lookup c'.slots conns 0 = some tunnel
  lookup_client : ∀ k : ℕ, 1 ≤ k → t.conn.id = k → lookup c'.slots conns k = some t.announced

/-- **The announcement is sent.** -/
theorem sentWith_of_entersWith (handler : Controller → Command → Controller) (env : PumpEnv)
    {c₁ : Controller} {t : Slot} {clients : List Slot} {room k : ℕ}
    (h : EntersWith c c₁ (tunnel :: clients) t k)
    (htunnel : TunnelFree (room + 5) tunnel) :
    ∃ c₂ tunnel', SentWith room c.sorted c₁ c₂ tunnel' clients t ∧
      (Readable tunnel → Readable tunnel') ∧
      pumpTransfer handler env c.sorted c₁ =
        .ok (encodeConnections c.sorted c₂.pump.currentIndex
          (List.range (maxConnections - 1)) c₂) := by
  have hmem : tunnel ∈ c₁.slots := by
    rw [h.slots]
    exact List.mem_cons_self
  have ht : lookup c₁.slots c.sorted 0 = some tunnel := (h.lookup 0 tunnel).mpr ⟨hmem, htunnel.id⟩
  have hfree := htunnel.outBuf
  let f : Connection → Connection := fun conn => { conn with outBuf :=
    (encodeCommand tunnel.conn.outBuf (cmdqDequeue c₁.pump.cmdQueue).1.cmd
      (cmdqDequeue c₁.pump.cmdQueue).1.arg).2 }
  obtain ⟨hsent, hothers⟩ := sendFirst_sent h.ready.nodup h.ready.entries ht
  have hslots : (c₁.sendFirst tunnel).slots =
      ({ tunnel with conn := f tunnel.conn } :: clients) ++ [t.announced] := by
    change modifyConn c₁.slots tunnel.ref f = _
    have hnd := h.ready.nodup
    rw [h.slots, List.cons_append] at hnd ⊢
    exact modifyConn_head hnd f
  refine ⟨c₁.sendFirst tunnel, { tunnel with conn := f tunnel.conn },
    ⟨hslots, ?_, rfl, ?_, rfl, rfl,
    rfl, rfl, ⟨_, rfl⟩, hsent.map_ref ▸ h.ready.nodup, hsent.entriesAt h.ready.entries,
    lookup_sendFirst ht, fun k hk hid => ?_⟩, fun hread => ⟨hread.unwrapped, hread.listens⟩,
    pumpTransfer_of_one ht htunnel.inBuf h.queue (le_of_add_le_right hfree)⟩
  · refine ⟨htunnel.ref, htunnel.id, htunnel.state, htunnel.inState, htunnel.outState,
      htunnel.inBuf,
      htunnel.capacity, ?_⟩
    let first := (cmdqDequeue c₁.pump.cmdQueue).1
    have hframe : (commandFrame first.cmd first.arg).length ≤ _ := le_of_add_le_right hfree
    change room ≤ bufFreeLength (encodeCommand _ _ _).2
    rw [encodeCommand_of_room hframe, bufFreeLength_put hframe]
    exact Nat.le_sub_of_add_le hfree
  · exact (length_cmdqDequeue _).trans (congrArg (· - 1) h.queue)
  · have hclient : t.announced ∈ c₁.slots := by
      rw [h.slots]
      exact List.mem_append_right _ List.mem_cons_self
    exact (hothers k (by omega)).trans ((h.lookup k t.announced).mpr ⟨hclient, hid⟩)

/-! ### One client after the other -/

theorem TunnelFree.withPfd {room : ℕ} (h : TunnelFree room s) (pfd : Pollfd) :
    TunnelFree room { s with pfd := pfd } :=
  ⟨h.ref, h.id, h.state, h.inState, h.outState, h.inBuf, h.capacity, h.outBuf⟩

/-- An update that announces the changes and comes to the pump. -/
theorem update_of_changes {env : Env} {m : Manager} {c₁ : Controller}
    (hpoll : cmPoll env.poll c.manager = .ok (m, .none))
    (hchanges : changes (Controller.sorted { c with manager := m })
      (Controller.sort { c with manager := m }) = .ok (c₁, .inr conns))
    (hpump : pumpTransfer (onCommand env.pump.connect) env.pump conns c₁ = .ok c') :
    update env c = .ok (c', .none) := by
  unfold update
  rw [beforeTransfer_of_cmPoll hpoll, hchanges]
  simp only [bind, Except.bind, hpump]

/-- The ids of the other connections, when the tunnel comes first. -/
theorem Crowd.clientIds {n : ℕ} (h : Crowd n c) {clients : List Slot}
    (hslots : c.slots = tunnel :: clients) :
    clients.map (fun s => s.conn.id) = (List.range' 1 n).map Int.ofNat := by
  have hids := h.ids
  rw [hslots, List.map_cons, List.range_succ_eq_map, List.map_cons] at hids
  rw [(List.cons.inj hids).2, List.range'_eq_map_range]
  simp [Function.comp_def, Nat.add_comm]

theorem mem_of_map_id {ids : List ℕ} {clients : List Slot}
    (h : clients.map (fun s => s.conn.id) = ids.map Int.ofNat) (hs : s ∈ clients) :
    ∃ i ∈ ids, s.conn.id = i := by
  have hmem : s.conn.id ∈ ids.map Int.ofNat := by
    rw [← h]
    exact List.mem_map_of_mem hs
  obtain ⟨i, hi, hid⟩ := List.mem_map.mp hmem
  exact ⟨i, hi, hid.symm⟩

/-- **One more client waits.** -/
theorem crowd_step {n : ℕ} (hwf : WellFormed c) (h : Crowd n c) (hn : n < 255) (fd : ℕ) :
    ∃ c', update ⟨clientComes fd, samplePump⟩ c = .ok (c', .none) ∧ Crowd (n + 1) c' := by
  obtain ⟨tunnel, clients, hslots, htunnel, hread, hwaits⟩ := h.slots
  have hids := h.clientIds hslots
  have hlen : clients.length = n := by
    have hlength := congrArg List.length hids
    rwa [List.length_map, List.length_map, List.length_range'] at hlength
  obtain ⟨pfd, hturn, hlisten⟩ : ∃ pfd, pollTurn (clientComes fd).sockets (fun _ => {}) tunnel =
      some { tunnel with pfd := pfd } ∧ (Listens tunnel.pfd → Listens pfd) :=
    pollTurn_of_quiet htunnel.intact htunnel.room rfl
  obtain ⟨m, clients', hpoll, hslots', hacceptor, hwaits', hids'⟩ :=
    cmPoll_of_crowd (clientComes fd) hslots hwaits (by omega) h.acceptor rfl
      (by rintro ⟨⟩) rfl rfl rfl hturn
  have hwf' : WellFormed { c with manager := m } := (Step.poll hpoll).wellFormed hwf
  rw [hids] at hids'
  have hroom : 5 * (257 - n) = 5 * (257 - (n + 1)) + 5 := by omega
  have hall : ((({ tunnel with pfd := pfd } : Slot) :: clients').map (fun s => s.conn.id) ++
      [((n + 1 : ℕ) : ℤ)]) = (List.range (n + 1 + 1)).map Int.ofNat := by
    rw [List.range_succ, List.map_append, List.map_cons, hids', List.range_succ_eq_map (n := n),
      List.map_cons, htunnel.id, List.range'_eq_map_range]
    simp [Function.comp_def, Nat.add_comm]
  have hstack : c.freeIds =
      ((n + 1 : ℕ) : ℤ) :: (List.range' (n + 1 + 1) (255 - (n + 1))).map Int.ofNat := by
    have hcount : 255 - n = 255 - (n + 1) + 1 := by omega
    rw [h.freeIds, hcount, List.range'_succ, List.map_cons]
    rfl
  obtain ⟨c₁, h₁⟩ := entersWith_of_new (k := n + 1) hwf' hslots' (htunnel.withPfd pfd) hwaits' rfl
    rfl rfl rfl (congrArg List.head? hstack) (by omega) (by omega)
    (by rw [hall]; exact List.nodup_range.map Int.ofNat_injective) (fun s hs => by
      obtain ⟨i, -, hid⟩ := mem_of_map_id hids' hs
      omega) h.queue
  obtain ⟨c₂, tunnel₂, h₂, hread₂, hpump⟩ := sentWith_of_entersWith (onCommand samplePump.connect)
    samplePump h₁ (hroom ▸ htunnel.withPfd pfd)
  let t : Slot := ((newClient sampleMalloc c.manager fd).withId ((n + 1 : ℕ) : ℤ)).announced
  have ht : Waits t.conn := ⟨rfl, rfl, rfl, rfl, rfl⟩
  have hempty : ∀ s ∈ c₂.slots, s.conn.id ≠ 0 → s.conn.inBuf.length = 0 := by
    intro s hs hid
    rw [h₂.slots] at hs
    rcases List.mem_append.mp hs with hs | hs
    · rcases List.mem_cons.mp hs with rfl | hs
      · exact h₂.tunnelFree.inBuf
      · exact (hwaits' s hs).inBuf
    · rw [List.mem_singleton.mp hs]
      exact ht.inBuf
  rw [encodeConnections_of_empty _ _ hempty h₂.nodup h₂.entries] at hpump
  obtain ⟨command, htrace⟩ := h₂.trace
  refine ⟨c₂, update_of_changes hpoll h₁.changes hpump, ?_⟩
  exact
    { slots := ⟨tunnel₂, clients' ++ [t], h₂.slots, h₂.tunnelFree, hread₂ ⟨hread.unwrapped,
        hlisten hread.listens⟩, fun s hs => (List.mem_append.mp hs).elim (hwaits' s) fun hs =>
          (List.mem_singleton.mp hs).symm ▸ ht⟩
      ids := by
        rw [h₂.slots, List.map_append, List.map_cons, h₂.tunnelFree.id.trans htunnel.id.symm]
        exact hall
      freeIds := h₂.freeIds.trans (List.cons.inj (h₁.freeIds.symm.trans hstack)).2
      queue := h₂.queue
      sendingTo := h₂.sendingTo.trans (h₁.sendingTo.trans h.sendingTo)
      index := h₂.index.trans (h₁.index.trans h.index)
      acceptor := (h₂.acceptor.trans (h₁.acceptor.trans hacceptor)).ge.trans' h.acceptor
      accepting := h₂.accepting.trans (h₁.accepting.trans h.accepting)
      trace := by
        rw [htrace, h₁.trace]
        exact (h.trace.cons (by rintro _ _ _ _ ⟨⟩)).cons (by rintro _ _ _ _ ⟨⟩) }

theorem updates_concat {envs : List Env} {env : Env} {c₁ : Controller}
    (h : updates envs c = some c₁)
    (hc : update env c₁ = .ok (c', .none)) : updates (envs ++ [env]) c = some c' := by
  induction envs generalizing c with
  | nil =>
    obtain rfl := Option.some.inj h
    rw [List.nil_append, updates, hc]
    rfl
  | cons e envs ih =>
    unfold updates at h
    rw [List.cons_append, updates]
    split at h
    · exact ih h
    · exact absurd h.symm (Option.some_ne_none c₁)

/-- Clients connect, one in each update. -/
def arrivals (n : ℕ) : List Env := (List.range n).map fun i => ⟨clientComes (7 + i), samplePump⟩

/-- **Any number of clients up to `255` can wait.** -/
theorem crowd_run {n : ℕ} (hn : n ≤ 255) : ∃ c,
    updates (arrivals n) (startController sampleStart sampleBufSize true) = some c ∧ Crowd n c := by
  induction n with
  | zero => exact ⟨_, rfl, crowd_start sampleStart⟩
  | succ n ih =>
    obtain ⟨c, hc, hcrowd⟩ := ih (Nat.le_of_succ_le hn)
    have hwf := (Visit.reach (reach_updates (.start sampleStart) hc)).wellFormed
    obtain ⟨c', hupdate, hcrowd'⟩ := crowd_step hwf hcrowd hn (7 + n)
    refine ⟨c', ?_, hcrowd'⟩
    rw [arrivals, List.range_succ, List.map_append]
    exact updates_concat hc hupdate

/-! ### A client that comes too late -/

/-- A client that has been accepted, and has no id. -/
structure JustCame (s : Slot) : Prop extends Readable s where
  ref : s.ref ≠ 0
  accepted : s.inc = s.ref
  id : s.conn.id = -1
  state : s.conn.state = { new := true }
  inState : s.conn.inState = {}
  outState : s.conn.outState = {}
  inBuf : s.conn.inBuf.length = 0
  room : 1 ≤ bufFreeLength s.conn.inBuf

theorem JustCame.intact (h : JustCame s) : Intact s.conn :=
  intact_of_new (by rw [h.state]; rfl) h.inState h.outState

theorem justCame_newClient (malloc : Malloc) {m : Manager} (fd : ℕ) (href : m.nextRef ≠ 0) :
    JustCame (newClient malloc m fd) where
  unwrapped := Nat.zero_le _
  listens := ⟨Int.natCast_nonneg _, rfl⟩
  ref := href
  accepted := rfl
  id := rfl
  state := rfl
  inState := rfl
  outState := rfl
  inBuf := rfl
  room := m.bufSize.pos

/-- All ids were taken when the client `t` came. Then the connection `gone` was closed, which has
given back its id `1`. -/
structure Late (tunnel gone : Slot) (clients : List Slot) (t : Slot) (c : Controller) : Prop where
  slots : c.slots = (tunnel :: gone :: clients) ++ [t]
  tunnelFree : TunnelFree 10 tunnel
  gone : gone.conn.state.delete = true
  waits : ∀ s ∈ clients, Waits s.conn
  came : JustCame t
  ids : (((0 : ℤ) :: clients.map fun s : Slot => s.conn.id) ++ [1]).Nodup
  nonneg : ∀ s ∈ clients, 0 ≤ s.conn.id
  freeIds : c.freeIds = [1]
  queue : c.pump.cmdQueue.length = 0
  index : c.pump.currentIndex = 0
  trace : OnlyCloses c.trace

/-- **There is no id for the last client**: nothing is announced. -/
theorem changes_of_no_id {t : Slot} {clients : List Slot} (hwf : WellFormed c)
    (hslots : c.slots = (tunnel :: clients) ++ [t]) (hid : tunnel.conn.id = 0)
    (hintact : Intact tunnel.conn) (hwaits : ∀ s ∈ clients, Waits s.conn) (ht : JustCame t)
    (hfree : c.freeIds = []) (hids : ((tunnel :: clients).map fun s => s.conn.id).Nodup)
    (hpos : ∀ s ∈ clients, 1 ≤ s.conn.id) :
    changes c.sorted c.sort = .ok (c, .inr c.sorted) ∧ ConnsOk c.sorted c.slots ∧
      lookup c.slots c.sorted 0 = some tunnel := by
  have hass := hwf.sort_assigns
  rw [hslots] at hass
  have hsame : c.sort = c := by
    rcases hass.append_client (List.forall_mem_cons.mpr ⟨hid.ge, fun s hs => by
      have hone := hpos s hs
      omega⟩) (by rw [ht.id]; decide) with ⟨-, hnil, hsorted⟩ | ⟨id, hstack, -⟩
    · rw [← hslots] at hsorted
      rw [← hfree] at hnil
      calc c.sort = { c.setSlots c.sort.slots with freeIds := c.sort.freeIds } := rfl
        _ = c := by
          rw [hsorted, hnil]
          rfl
    · rw [hfree] at hstack
      cases hstack
  have hdel : ∀ s ∈ c.slots, s.conn.state.delete = false := by
    rw [hslots]
    intro s hs
    rcases List.mem_append.mp hs with hs | hs
    · rcases List.mem_cons.mp hs with rfl | hs
      · exact hintact.delete
      · exact (hwaits s hs).intact.delete
    · rw [List.mem_singleton.mp hs]
      exact ht.intact.delete
  have hconns : ConnsOk c.sorted c.slots := by
    have hsort := hwf.connsOk_sort (delete_sort hwf hdel)
    rwa [hsame] at hsort
  have hlookup {i : ℕ} {s : Slot} : lookup c.slots c.sorted i = some s ↔
      s ∈ c.slots ∧ s.conn.id = i :=
    hconns.lookup_iff_mem hwf.nodup (by
      rw [hslots, List.map_append, List.nodup_append]
      refine ⟨hids, List.nodup_singleton _, fun i hi j hj => ?_⟩
      obtain ⟨s, hs, rfl⟩ := List.mem_map.mp hi
      rw [List.map_singleton, List.mem_singleton, ht.id] at hj
      rcases List.mem_cons.mp hs with rfl | hs
      · omega
      · have hone := hpos s hs
        omega) hdel
  have htun : lookup c.slots c.sorted 0 = some tunnel :=
    hlookup.mpr ⟨by rw [hslots]; exact List.mem_cons_self, hid⟩
  refine ⟨?_, hconns, htun⟩
  have hloop : stateLoop (List.range' 1 255) c.sorted c = (.ok, c, c.sorted) :=
    stateLoop_of_waits hwf.nodup fun i hi s hs => by
      obtain ⟨hmem, hsid⟩ := hlookup.mp hs
      rw [List.mem_range'_1] at hi
      rw [hslots] at hmem
      rcases List.mem_append.mp hmem with hmem | hmem
      · rcases List.mem_cons.mp hmem with rfl | hmem
        · omega
        · exact hwaits s hmem
      · rw [List.mem_singleton.mp hmem, ht.id] at hsid
        omega
  unfold changes
  rw [hsame, htun]
  dsimp only
  rw [handleStateChanges, ((isAlive_iff _).mp hintact.state).2.1,
    ((isAlive_iff _).mp hintact.inState).2.1, ((isAlive_iff _).mp hintact.outState).2.1, hloop]
  rfl

theorem modifyConn_cons_of_ne {slots : List Slot} {u : Slot} {ref : ℕ} (h : u.ref ≠ ref)
    (f : Connection → Connection) :
    modifyConn (u :: slots) ref f = u :: modifyConn slots ref f := by
  rw [modifyConn, List.map_cons, if_neg h]
  rfl

/-- The second connection, which is changed. -/
theorem modifyConn_second {slots : List Slot} {u : Slot}
    (hnd : ((u :: s :: slots).map Slot.ref).Nodup) (f : Connection → Connection) :
    modifyConn (u :: s :: slots) s.ref f = u :: { s with conn := f s.conn } :: slots := by
  rw [List.map_cons, List.nodup_cons] at hnd
  have hne : u.ref ≠ s.ref := fun href => hnd.1 (href ▸ List.mem_cons_self)
  rw [modifyConn_cons_of_ne hne, modifyConn_head hnd.2]

/-- An endpoint after `CMD_CLOSE` has been handled for the connection that comes after the
tunnel. -/
structure Closed (c c' : Controller) (tunnel gone : Slot) (slots : List Slot) : Prop where
  slots : ∃ inBuf : RoundBuffer, inBuf.length = 0 ∧ inBuf.capacity = tunnel.conn.inBuf.capacity ∧
    c'.slots = { tunnel with conn := { tunnel.conn with inBuf := inBuf } } ::
      { gone with conn := commandChange cmdClose gone.conn } :: slots
  freeIds : c'.freeIds = idStackPush c.freeIds gone.conn.id
  pump : c'.pump = c.pump
  trace : ∃ command target stack opened, c'.trace = .handled command target stack opened ::
    .received cmdClose 1 :: c.trace ∧ command.cmd = cmdClose

/-- **The peer closes connection `1`.** -/
theorem closed_of_command {gone : Slot} {slots : List Slot} (env : PumpEnv)
    (hslots : c.slots = tunnel :: gone :: slots) (hnd : (c.slots.map Slot.ref).Nodup)
    (hid : tunnel.conn.id = 0) (hgone : gone.conn.id = 1) (haccepting : c.accepting = true)
    (hidle : c.pump.sendingTo = -1) (ht : lookup c.slots conns 0 = some tunnel)
    (hcontents : tunnel.conn.inBuf.contents = [endByte, 0, cmdClose, 1, endByte]) :
    ∃ c', recvFromTunnel (onCommand env.connect) env conns c = .ok c' ∧
      Closed c c' tunnel gone slots := by
  have hlen : tunnel.conn.inBuf.length = 5 := by
    rw [← RoundBuffer.length_contents, hcontents]
    rfl
  have hrecv : recvFromTunnel (onCommand env.connect) env conns c =
      .ok (c.handleFrame (onCommand env.connect) tunnel cmdClose 1) := by
    unfold recvFromTunnel
    rw [ht]
    dsimp only
    rw [if_neg (mt (bufEmpty_iff _).mp (by omega)), if_neg (not_not_intro hidle),
      nextFrame_eq ht hcontents, if_neg (not_not_intro rfl), if_pos rfl, if_neg (by decide)]
  let f : Connection → Connection := fun conn =>
    { conn with inBuf := bufAdvanceReadPtr tunnel.conn.inBuf 3 }
  let g : Connection → Connection := fun conn =>
    { conn with inBuf := bufAdvanceReadPtr conn.inBuf 2 }
  let c₁ : Controller := (c.modify tunnel.ref f).note (.received cmdClose 1)
  have hslots₁ : c₁.slots = { tunnel with conn := f tunnel.conn } :: gone :: slots := by
    change modifyConn c.slots tunnel.ref f = _
    rw [hslots] at hnd ⊢
    exact modifyConn_head hnd f
  have htarget : commandTarget c₁ ⟨cmdClose, 1, 0⟩ = some gone := by
    unfold commandTarget
    rw [hslots₁, List.find?_cons_of_neg, List.find?_cons_of_pos]
    · rw [hgone]
      rfl
    · change ¬ (tunnel.conn.id == _) = true
      rw [hid]
      decide
  have hhandle : c.handleFrame (onCommand env.connect) tunnel cmdClose 1 =
      (onCommand env.connect c₁ ⟨cmdClose, 1, 0⟩).modify tunnel.ref g := rfl
  rw [onCommand_of_some htarget, if_pos ⟨rfl, haccepting⟩] at hhandle
  refine ⟨_, hrecv.trans (congrArg _ hhandle),
    ⟨bufAdvanceReadPtr (bufAdvanceReadPtr tunnel.conn.inBuf 3) 2,
    ?_, ?_, ?_⟩, rfl, rfl, _, _, _, _, rfl, rfl⟩
  · rw [length_bufAdvanceReadPtr, length_bufAdvanceReadPtr, hlen]
  · rw [capacity_bufAdvanceReadPtr, capacity_bufAdvanceReadPtr]
  · change modifyConn (modifyConn c₁.slots gone.ref (commandChange cmdClose)) tunnel.ref g = _
    rw [hslots] at hnd
    rw [hslots₁, modifyConn_second (u := { tunnel with conn := f tunnel.conn }) hnd]
    exact @modifyConn_head { tunnel with conn := f tunnel.conn }
      ({ gone with conn := commandChange cmdClose gone.conn } :: slots) hnd g

/-- A client comes, while the peer closes connection `1`. -/
def clientComesTooLate (fd : ℕ) : PollEnv :=
  { tunnelReads [endByte, 0, cmdClose, 1, endByte] with
    client := true
    accept := ⟨.ok fd, sampleMalloc⟩ }

theorem EntriesAt.of_map_eq {slots slots' : List Slot} (h : EntriesAt conns slots)
    (hmap : slots'.map (fun s => (s.ref, s.conn.id)) = slots.map fun s => (s.ref, s.conn.id)) :
    EntriesAt conns slots' := by
  intro i ref href
  obtain ⟨s, hs, hsref, hid⟩ := h i ref href
  have hmem : (s.ref, s.conn.id) ∈ slots'.map fun s => (s.ref, s.conn.id) := by
    rw [hmap]
    exact List.mem_map_of_mem hs
  obtain ⟨s', hs', heq⟩ := List.mem_map.mp hmem
  obtain ⟨hsame, hsameid⟩ := Prod.mk.inj heq
  exact ⟨s', hs', hsame.trans hsref, hsameid.trans hid⟩

/-- No command is in the queue and no connection has unread input: the pump does what the tunnel
asks for. -/
theorem pumpTransfer_of_no_input {env : PumpEnv} {c₁ : Controller}
    (hrecv : recvFromTunnel handler env conns c = .ok c₁) (hqueue : c₁.pump.cmdQueue.length = 0)
    (hempty : ∀ s ∈ c₁.slots, s.conn.inBuf.length = 0) (hrefs : (c₁.slots.map Slot.ref).Nodup)
    (hentries : EntriesAt conns c₁.slots) : pumpTransfer handler env conns c = .ok c₁ := by
  have hdrain : drainCommands conns (cmdqLength c₁.pump.cmdQueue) c₁ = (true, c₁) := by
    rw [cmdqLength, hqueue]
    rfl
  have hsend : sendToTunnel conns c₁ = c₁ :=
    (sendToTunnel_of_sent hdrain).trans
      (encodeConnections_of_empty _ _ (fun s hs _ => hempty s hs) hrefs hentries)
  rw [pumpTransfer_eq, hrecv, Except.map, hsend]

/-- All ids are taken. `cm_poll` has read the frame that closes the connection `gone`, and has
accepted the client `t`. -/
structure LatePolled (tunnel gone : Slot) (clients : List Slot) (t : Slot) (c : Controller) :
    Prop where
  slots : c.slots = (tunnel :: gone :: clients) ++ [t]
  ref : tunnel.ref = 0
  id : tunnel.conn.id = 0
  state : tunnel.conn.state = {}
  inState : tunnel.conn.inState = {}
  outState : tunnel.conn.outState = {}
  inBuf : tunnel.conn.inBuf.contents = [endByte, 0, cmdClose, 1, endByte]
  capacity : 5 ≤ tunnel.conn.inBuf.capacity
  outBuf : 10 ≤ bufFreeLength tunnel.conn.outBuf
  waits : ∀ s ∈ gone :: clients, Waits s.conn
  ids : (gone :: clients).map (fun s => s.conn.id) = (List.range' 1 255).map Int.ofNat
  came : JustCame t
  freeIds : c.freeIds = []
  accepting : c.accepting = true
  sendingTo : c.pump.sendingTo = -1
  queue : c.pump.cmdQueue.length = 0
  index : c.pump.currentIndex = 0
  trace : OnlyCloses c.trace

namespace LatePolled

variable {gone t : Slot} {clients : List Slot}

theorem one_le (h : LatePolled tunnel gone clients t c) :
    ∀ s ∈ gone :: clients, 1 ≤ s.conn.id := by
  intro s hs
  obtain ⟨i, hi, hid⟩ := mem_of_map_id h.ids hs
  rw [List.mem_range'_1] at hi
  omega

theorem nodup_ids (h : LatePolled tunnel gone clients t c) :
    ((tunnel :: gone :: clients).map fun s => s.conn.id).Nodup := by
  rw [List.map_cons, h.ids, h.id]
  exact (List.nodup_range' (s := 0) (n := 256)).map Int.ofNat_injective

theorem gone_id (h : LatePolled tunnel gone clients t c) : gone.conn.id = 1 := by
  have hids := h.ids
  rw [List.range'_succ, List.map_cons, List.map_cons] at hids
  exact (List.cons.inj hids).1

theorem intact (h : LatePolled tunnel gone clients t c) : Intact tunnel.conn :=
  intact_of_new (by rw [h.state]; rfl) h.inState h.outState

end LatePolled

/-- **The client that comes too late**: the call of `cm_poll`. -/
theorem latePolled_of_crowd (hwf : WellFormed c) (h : Crowd 255 c) (fd : ℕ) :
    ∃ m tunnel gone clients t, cmPoll (clientComesTooLate fd) c.manager = .ok (m, .none) ∧
      LatePolled tunnel gone clients t { c with manager := m } := by
  obtain ⟨tunnel, clients, hslots, htunnel, hread, hwaits⟩ := h.slots
  have hids := h.clientIds hslots
  have hlen : clients.length = 255 := by
    have hlength := congrArg List.length hids
    rwa [List.length_map, List.length_map, List.length_range'] at hlength
  let bs : List UInt8 := [endByte, 0, cmdClose, 1, endByte]
  have hfree : bs.length ≤ bufFreeLength tunnel.conn.inBuf := by
    rw [bufFreeLength, htunnel.inBuf]
    exact htunnel.capacity
  have hnil : tunnel.conn.inBuf.contents = [] :=
    tunnel.conn.inBuf.contents_eq_nil_iff.mpr htunnel.inBuf
  let read : Connection := { tunnel.conn with inBuf := tunnel.conn.inBuf.put bs }
  obtain ⟨pfd, hturn⟩ : ∃ pfd, pollTurn (clientComesTooLate fd).sockets
      (fun ref => { pollin := ref == 0 }) tunnel = some { tunnel with conn := read, pfd := pfd } :=
    pollTurn_of_bytes htunnel.intact (by rw [htunnel.state]) hread.listens
      (by rw [htunnel.ref]; rfl) (by rw [htunnel.ref]; rfl) hread.unwrapped
      (List.cons_ne_nil _ _) hfree
  obtain ⟨m, clients', hpoll, hslots', -, hwaits', hids'⟩ :=
    cmPoll_of_crowd (clientComesTooLate fd) hslots hwaits (by omega) h.acceptor rfl
      (by rintro ⟨⟩) rfl rfl rfl hturn
  have halloc : c.manager.nextRef ≠ 0 := by
    have hlt := hwf.allocated tunnel (hslots ▸ List.mem_cons_self)
    omega
  obtain ⟨gone, rest, rfl⟩ : ∃ gone rest, clients' = gone :: rest := by
    refine List.exists_cons_of_length_pos ?_
    have hlength := congrArg List.length hids'
    rw [List.length_map, List.length_map] at hlength
    omega
  refine ⟨m, { tunnel with conn := read, pfd := pfd }, gone, rest,
    newClient sampleMalloc c.manager fd, hpoll, ?_⟩
  exact
    { slots := hslots'
      ref := htunnel.ref
      id := htunnel.id
      state := htunnel.state
      inState := htunnel.inState
      outState := htunnel.outState
      inBuf := (contents_put hread.unwrapped hfree).trans (by rw [hnil]; rfl)
      capacity := (capacity_put ..).symm ▸ htunnel.capacity
      outBuf := htunnel.outBuf
      waits := hwaits'
      ids := hids'.trans hids
      came := justCame_newClient sampleMalloc fd halloc
      freeIds := h.freeIds
      accepting := h.accepting
      sendingTo := h.sendingTo
      queue := h.queue
      index := h.index
      trace := h.trace }

section Late

variable {gone t : Slot} {clients : List Slot}

/-- Closing a connection moves no connection, and changes no id. -/
theorem Closed.map_ref_id {slots : List Slot} (h : Closed c c' tunnel gone slots)
    (hslots : c.slots = tunnel :: gone :: slots) :
    c'.slots.map (fun s => (s.ref, s.conn.id)) = c.slots.map fun s => (s.ref, s.conn.id) := by
  obtain ⟨inBuf, -, -, hslots'⟩ := h.slots
  rw [hslots', hslots]
  rfl

/-- Once the frame is handled, no input has anything unread. -/
theorem LatePolled.no_input (h : LatePolled tunnel gone clients t c)
    (hclosed : Closed c c' tunnel gone (clients ++ [t])) :
    ∀ s ∈ c'.slots, s.conn.inBuf.length = 0 := by
  obtain ⟨inBuf, hempty, -, hslots⟩ := hclosed.slots
  rw [hslots]
  refine List.forall_mem_cons.mpr ⟨hempty, List.forall_mem_cons.mpr ⟨?_, fun s hs => ?_⟩⟩
  · exact (h.waits gone List.mem_cons_self).inBuf
  · rcases List.mem_append.mp hs with hs | hs
    · exact (h.waits s (List.mem_cons_of_mem _ hs)).inBuf
    · rw [List.mem_singleton.mp hs]
      exact h.came.inBuf

/-- Once the frame is handled, its connection has given back the id `1`. -/
theorem LatePolled.late (h : LatePolled tunnel gone clients t c)
    (hclosed : Closed c c' tunnel gone (clients ++ [t])) :
    ∃ tunnel', Late tunnel' { gone with conn := commandChange cmdClose gone.conn } clients t
      c' := by
  obtain ⟨inBuf, hempty, hcap, hslots⟩ := hclosed.slots
  obtain ⟨command, target, stack, opened, htrace, hcmd⟩ := hclosed.trace
  have hids := h.nodup_ids
  rw [List.map_cons, List.map_cons, h.id, h.gone_id] at hids
  refine ⟨{ tunnel with conn := { tunnel.conn with inBuf := inBuf } }, ?_⟩
  exact
    { slots := hslots
      tunnelFree :=
        ⟨h.ref, h.id, h.state, h.inState, h.outState, hempty, hcap.symm ▸ h.capacity, h.outBuf⟩
      gone := rfl
      waits := fun s hs => h.waits s (List.mem_cons_of_mem _ hs)
      came := h.came
      ids := ((List.perm_append_singleton 1 _).cons 0).nodup_iff.mpr hids
      nonneg := fun s hs => by
        have hone := h.one_le s (List.mem_cons_of_mem _ hs)
        omega
      freeIds := by
        rw [hclosed.freeIds, h.freeIds, h.gone_id]
        rfl
      queue := by
        rw [hclosed.pump]
        exact h.queue
      index := (congrArg Pump.currentIndex hclosed.pump).trans h.index
      trace := by
        rw [htrace]
        refine (h.trace.cons (by rintro _ _ _ _ ⟨⟩)).cons ?_
        rintro _ _ _ _ ⟨⟩
        exact hcmd }

/-- **All ids are taken when a client comes.** -/
theorem late_step (hwf : WellFormed c) (h : Crowd 255 c) (fd : ℕ) :
    ∃ c' tunnel gone clients t, update ⟨clientComesTooLate fd, samplePump⟩ c = .ok (c', .none) ∧
      Late tunnel gone clients t c' := by
  obtain ⟨m, tunnel, gone, clients, t, hpoll, h₀⟩ := latePolled_of_crowd hwf h fd
  let c₀ : Controller := { c with manager := m }
  have hwf₀ : WellFormed c₀ := (Step.poll hpoll).wellFormed hwf
  have hslots₀ : c₀.slots = tunnel :: gone :: (clients ++ [t]) := h₀.slots
  obtain ⟨hchanges, hconns, htun⟩ := changes_of_no_id hwf₀ h₀.slots h₀.id h₀.intact h₀.waits
    h₀.came h₀.freeIds h₀.nodup_ids h₀.one_le
  obtain ⟨c₁, hrecv, hclosed⟩ := closed_of_command samplePump hslots₀ hwf₀.nodup h₀.id h₀.gone_id
    h₀.accepting h₀.sendingTo htun h₀.inBuf
  obtain ⟨tunnel', hlate⟩ := h₀.late hclosed
  have hsame := hclosed.map_ref_id hslots₀
  have hrefs : (c₁.slots.map Slot.ref).Nodup := by
    have hmap := congrArg (List.map Prod.fst) hsame
    rw [List.map_map, List.map_map] at hmap
    exact hmap.symm ▸ hwf₀.nodup
  have hpump := pumpTransfer_of_no_input hrecv hlate.queue (h₀.no_input hclosed) hrefs
    (hconns.entriesAt.of_map_eq hsame)
  exact ⟨c₁, tunnel', _, clients, t, update_of_changes hpoll hchanges hpump, hlate⟩

end Late

/-- **The late client gets its id with something in its input**, and the pump encodes that in the
same update, in which `CMD_NEW` is sent. -/
theorem late_client_encoded {gone t : Slot} {clients : List Slot} (hwf : WellFormed c)
    (h : Late tunnel gone clients t c) :
    ∃ c' s bytes before, update ⟨clientReads [10], samplePump⟩ c = .ok (c', .none) ∧
      .encoded s bytes :: before <:+ c'.trace ∧ s.ref ≠ 0 ∧ s.inc = s.ref ∧ OnlyCloses before := by
  let env : PollEnv := clientReads [10]
  let ready : ℕ → PollMask := fun ref => { pollin := ref != 0 }
  obtain ⟨m, hpoll, hslots⟩ := cmPoll_of_no_client c.manager (show env.ready = some ready from rfl)
    (by rintro ⟨⟩) rfl
  obtain ⟨pfd, hturn, -⟩ : ∃ pfd, pollTurn env.sockets ready tunnel =
      some { tunnel with pfd := pfd } ∧ (Listens tunnel.pfd → Listens pfd) :=
    pollTurn_of_quiet h.tunnelFree.intact h.tunnelFree.room (by rw [h.tunnelFree.ref]; rfl)
  let t₁ : Connection := { t.conn with inBuf := t.conn.inBuf.put [10] }
  obtain ⟨pfd', ht⟩ : ∃ pfd', pollTurn env.sockets ready t =
    some { t with conn := t₁, pfd := pfd' } :=
    pollTurn_of_bytes h.came.intact (by rw [h.came.state]) h.came.listens
      (congrArg (fun b => ({ pollin := b } : PollMask)) (bne_iff_ne.mpr h.came.ref))
      (if_neg h.came.ref) h.came.unwrapped (List.cons_ne_nil _ _) h.came.room
  obtain ⟨pfds, hwaits⟩ := filterMap_of_waits h.waits env.sockets ready
  let c₀ : Controller := { c with manager := m }
  have hslots₀ : c₀.slots = ({ tunnel with pfd := pfd } ::
      clients.map fun s => { s with pfd := pfds s }) ++ [{ t with conn := t₁, pfd := pfd' }] := by
    change m.slots = _
    rw [hslots]
    change c.slots.filterMap _ = _
    rw [h.slots, List.filterMap_append, List.filterMap_cons_some hturn,
      List.filterMap_cons_none ((pollTurn_eq_none_iff ..).mpr h.gone), hwaits,
      List.filterMap_cons_some ht]
    rfl
  have hids : (clients.map fun s => { s with pfd := pfds s }).map (fun s => s.conn.id) =
      clients.map fun s => s.conn.id := by
    rw [List.map_map]
    rfl
  obtain ⟨c₁, h₁⟩ := entersWith_of_new (k := 1) ((Step.poll hpoll).wellFormed hwf) hslots₀
    (h.tunnelFree.withPfd pfd) (by simpa using h.waits) h.came.state h.came.inState h.came.outState
    h.came.id (congrArg List.head? h.freeIds) le_rfl (by decide) (by
      rw [List.map_cons, hids, h.tunnelFree.id]
      exact h.ids) (by simpa using h.nonneg) h.queue
  obtain ⟨c₂, tunnel₂, h₂, -, hpump⟩ := sentWith_of_entersWith (onCommand samplePump.connect)
    samplePump h₁ (show TunnelFree (5 + 5) _ from h.tunnelFree.withPfd pfd)
  have hindex : c₂.pump.currentIndex = 0 := h₂.index.trans (h₁.index.trans h.index)
  let client : Slot := (({ t with conn := t₁, pfd := pfd' } : Slot).withId 1).announced
  have hclient : lookup c₂.slots c₀.sorted 1 = some client := h₂.lookup_client 1 le_rfl rfl
  have hcontents : client.conn.inBuf.contents = [10] := by
    have hnil : t.conn.inBuf.contents = [] := t.conn.inBuf.contents_eq_nil_iff.mpr h.came.inBuf
    have hroom : [(10 : UInt8)].length ≤ bufFreeLength t.conn.inBuf := h.came.room
    exact (contents_put h.came.unwrapped hroom).trans (by rw [hnil]; rfl)
  have hne : client.conn.inBuf.length ≠ 0 := by
    rw [← RoundBuffer.length_contents, hcontents]
    exact Nat.one_ne_zero
  have hencode :
      encode client.conn.inBuf tunnel₂.conn.outBuf (toByte client.conn.id) = (true, _, _) :=
    encode_of_room hne <| by
      rw [hcontents, length_dataFrame]
      exact (by decide : (escaped [10]).length + 3 ≤ 5).trans h₂.tunnelFree.outBuf
  have hall : List.range (maxConnections - 1) = 0 :: (List.range 254).map Nat.succ :=
    List.range_succ_eq_map
  -- `pump_transfer` does not ask whether the connection is stopped
  have hskip : (!isAlive client.conn.state || !isAlive client.conn.inState) = false := by
    rw [show client.conn.inState = {} from h.came.inState]
    rfl
  rw [hindex, hall, encodeConnections_cons 0 0 _ hclient h₂.lookup_tunnel, hskip,
    if_neg Bool.false_ne_true, hencode, if_pos rfl] at hpump
  have htrace := trace_encodeTo c₂ client tunnel₂
  rw [if_neg (mt (bufEmpty_iff _).mp hne)] at htrace
  have hevents := encodeConnections_trace c₀.sorted 0 ((List.range 254).map Nat.succ)
    (c₂.encodeTo client tunnel₂)
  rw [htrace] at hevents
  obtain ⟨command, hqueued⟩ := h₂.trace
  refine ⟨_, client, _, c₂.trace, update_of_changes hpoll h₁.changes hpump, hevents,
    h.came.ref, h.came.accepted, ?_⟩
  rw [hqueued, h₁.trace]
  exact (h.trace.cons (by rintro _ _ _ _ ⟨⟩)).cons (by rintro _ _ _ _ ⟨⟩)

/-- A client comes when all ids are taken, and something is read from it when it gets its id. -/
def lateArrival : List Env :=
  arrivals 255 ++ [⟨clientComesTooLate 262, samplePump⟩] ++ [⟨clientReads [10], samplePump⟩]

/-- **Data of the late client is encoded, and `CMD_ACK` has never been handled.** -/
theorem late_run : ∃ c s bytes before,
    updates lateArrival (startController sampleStart sampleBufSize true) = some c ∧
      .encoded s bytes :: before <:+ c.trace ∧ s.ref ≠ 0 ∧ s.inc = s.ref ∧ OnlyCloses before := by
  have hwf {envs : List Env} {c : Controller}
      (hc : updates envs (startController sampleStart sampleBufSize true) = some c) :
      WellFormed c :=
    (Visit.reach (reach_updates (.start sampleStart) hc)).wellFormed
  obtain ⟨c₁, h₁, hcrowd⟩ := crowd_run le_rfl
  obtain ⟨c₂, tunnel, gone, clients, t, hupdate₂, hlate⟩ := late_step (hwf h₁) hcrowd 262
  have h₂ := updates_concat h₁ hupdate₂
  obtain ⟨c₃, s, bytes, before, hupdate₃, hencoded⟩ := late_client_encoded (hwf h₂) hlate
  exact ⟨c₃, s, bytes, before, updates_concat h₂ hupdate₃, hencoded⟩

end OsTasks.PortForwarding
