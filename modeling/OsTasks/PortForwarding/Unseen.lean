import OsTasks.PortForwarding.Blocking
import OsTasks.PortForwarding.FreeCells

/-!
# What receiving does not look at

`recv_from_tunnel` reads the input of the tunnel and writes the outputs of the other connections.
The output of the tunnel is only carried along: other bytes in its array make no difference to what
is received, handled and answered.

## Main definitions

* `Controller.withOutput`: the endpoint with another array in the output of a connection.
* `Unseen`: two endpoints that differ in this array, and in what has been recorded, only.

## Main results

* `recvFromTunnel_unseen`: receiving does the same to both.
-/

namespace OsTasks.PortForwarding

/-- The connection with another array in its output. -/
def Connection.withOutput (mem : ℕ → UInt8) (conn : Connection) : Connection :=
  { conn with outBuf := conn.outBuf.withArray mem }

/-- The endpoint with another array in the output of the connection at an address. -/
def Controller.withOutput (c : Controller) (ref : ℕ) (mem : ℕ → UInt8) : Controller :=
  c.modify ref (Connection.withOutput mem)

/-- The endpoint `d` is `c` with the array `mem` in the output of the connection at `ref`, up to
what has been recorded. -/
structure Unseen (ref : ℕ) (mem : ℕ → UInt8) (c d : Controller) : Prop where
  manager : d.manager = { c.manager with
    slots := modifyConn c.manager.slots ref (Connection.withOutput mem) }
  pump : d.pump = c.pump
  freeIds : d.freeIds = c.freeIds
  accepting : d.accepting = c.accepting
  bufSize : d.bufSize = c.bufSize

variable {conns : Conns} {c c₁ d : Controller} {ref : ℕ} {mem : ℕ → UInt8} {s : Slot}

theorem unseen_withOutput (c : Controller) (ref : ℕ) (mem : ℕ → UInt8) :
    Unseen ref mem c (c.withOutput ref mem) := ⟨rfl, rfl, rfl, rfl, rfl⟩

/-! ### Changes of one object -/

/-- Changes of different objects, or of different fields, commute. -/
theorem modifyConn_comm {slots : List Slot} {ref' : ℕ} {f g : Connection → Connection}
    (h : ref' ≠ ref ∨ ∀ conn, f (g conn) = g (f conn)) :
    modifyConn (modifyConn slots ref g) ref' f = modifyConn (modifyConn slots ref' f) ref g := by
  simp only [modifyConn_eq_map, List.map_map]
  refine List.map_congr_left fun s _ => ?_
  change modifySlot ref' f (modifySlot ref g s) = modifySlot ref g (modifySlot ref' f s)
  by_cases hs : s.ref = ref
  · by_cases hs' : s.ref = ref'
    · have hfg := h.resolve_left (not_not_intro (hs'.symm.trans hs))
      simp [modifySlot, hs, ← hs', hfg]
    · rw [modifySlot_of_ne hs', modifySlot_of_ne ((ref_modifySlot ..).trans_ne hs')]
  · rw [modifySlot_of_ne hs, modifySlot_of_ne ((ref_modifySlot ..).trans_ne hs)]

theorem Unseen.slots (h : Unseen ref mem c d) :
    d.slots = modifyConn c.slots ref (Connection.withOutput mem) := congrArg Manager.slots h.manager

theorem Unseen.modify (ref' : ℕ) (f : Connection → Connection) (h : Unseen ref mem c d)
    (hf : ref' ≠ ref ∨ ∀ conn, f (conn.withOutput mem) = (f conn).withOutput mem) :
    Unseen ref mem (c.modify ref' f) (d.modify ref' f) where
  manager := by
    change ({ d.manager with slots := modifyConn d.slots ref' f } : Manager) = _
    rw [h.slots, h.manager, modifyConn_comm hf]
    rfl
  pump := h.pump
  freeIds := h.freeIds
  accepting := h.accepting
  bufSize := h.bufSize

theorem Unseen.note (h : Unseen ref mem c d) (e e' : PumpEvent) :
    Unseen ref mem (c.note e) (d.note e') :=
  ⟨h.manager, h.pump, h.freeIds, h.accepting, h.bufSize⟩

theorem Unseen.setSendingTo (h : Unseen ref mem c d) (id : ℤ) :
    Unseen ref mem (c.setSendingTo id) (d.setSendingTo id) :=
  ⟨h.manager, congrArg (fun pump : Pump => { pump with sendingTo := id }) h.pump, h.freeIds,
    h.accepting, h.bufSize⟩

theorem Unseen.setQueue (h : Unseen ref mem c d) (q : CmdQueue) :
    Unseen ref mem (c.setQueue q) (d.setQueue q) :=
  ⟨h.manager, congrArg (fun pump : Pump => { pump with cmdQueue := q }) h.pump, h.freeIds,
    h.accepting, h.bufSize⟩

theorem lookup_unseen (h : Unseen ref mem c d) (i : ℕ) : lookup d.slots conns i =
    (lookup c.slots conns i).map (modifySlot ref (Connection.withOutput mem)) := by
  rw [h.slots, lookup_modifyConn]

/-- The connection with the other array. -/
theorem lookup_unseen_self (h : Unseen s.ref mem c d) {i : ℕ}
    (hs : lookup c.slots conns i = some s) :
    lookup d.slots conns i = some { s with conn := s.conn.withOutput mem } := by
  rw [lookup_unseen h, hs, Option.map_some, modifySlot_self]

theorem lookup_unseen_of_ne (h : Unseen ref mem c d) {i : ℕ}
    (hs : lookup c.slots conns i = some s) (hne : s.ref ≠ ref) :
    lookup d.slots conns i = some s := by
  rw [lookup_unseen h, hs, Option.map_some, modifySlot_of_ne hne]

/-! ### Commands -/

theorem sendOrWarn_unseen (h : Unseen ref mem c d) (command : Command) :
    Unseen ref mem (sendOrWarn c command) (sendOrWarn d command) := by
  unfold sendOrWarn sendCommand
  rw [h.pump]
  cases cmdqEnqueue c.pump.cmdQueue command with
  | none => exact h
  | some q => exact h.setQueue q

/-- A connection is opened beside the one that is changed. -/
theorem cmConnect_modifyConn (env : ConnectEnv) {m : Manager} (href : ref < m.nextRef)
    (f : Connection → Connection) (inBufSize outBufSize : ℕ+) (id : ℤ) (inc : ℕ) :
    cmConnect env { m with slots := modifyConn m.slots ref f } inBufSize outBufSize id inc =
      ((cmConnect env m inBufSize outBufSize id inc).1,
        { (cmConnect env m inBufSize outBufSize id inc).2 with
          slots := modifyConn (cmConnect env m inBufSize outBufSize id inc).2.slots ref f }) := by
  have hlen : (modifyConn m.slots ref f).length = m.slots.length := List.length_map _
  have hnew (t : Slot) (ht : t.ref = m.nextRef) :
      modifyConn m.slots ref f ++ [t] = modifyConn (m.slots ++ [t]) ref f := by
    rw [modifyConn_eq_map, modifyConn_eq_map, List.map_append, List.map_singleton,
      modifySlot_of_ne (ht.trans_ne href.ne')]
  unfold cmConnect
  dsimp only
  by_cases hfull : m.slots.length = managerMaxConnections
  · rw [if_pos hfull, if_pos (hlen.trans hfull)]
  rw [if_neg hfull, if_neg (hlen.trans_ne hfull)]
  cases makeConnection env.malloc inBufSize outBufSize id with
  | none => rfl
  | some conn =>
    cases env.socket with
    | none => rfl
    | some fd =>
      unfold cmAddConnection
      dsimp only
      rw [if_neg hfull, if_neg (hlen.trans_ne hfull)]
      split_ifs
      · rw [hnew _ rfl]
      · rfl

theorem id_withOutput (ref : ℕ) (mem : ℕ → UInt8) (s : Slot) :
    (modifySlot ref (Connection.withOutput mem) s).conn.id = s.conn.id := by
  unfold modifySlot
  split_ifs <;> rfl

theorem commandChange_withOutput (cmd : UInt8) (mem : ℕ → UInt8) (conn : Connection) :
    commandChange cmd (conn.withOutput mem) = (commandChange cmd conn).withOutput mem := by
  unfold commandChange
  split_ifs <;> rfl

theorem commandTarget_unseen (h : Unseen ref mem c d) (command : Command) :
    commandTarget d command =
      (commandTarget c command).map (modifySlot ref (Connection.withOutput mem)) := by
  unfold commandTarget
  rw [h.slots, modifyConn_eq_map, List.find?_map]
  refine congrArg _ (List.find?_congr fun s _ => ?_)
  exact congrArg (· == (command.arg.toNat : ℤ)) (id_withOutput ref mem s)

/-- A command is handled in the same way. -/
theorem onCommand_unseen (h : Unseen ref mem c d) (href : ref < c.manager.nextRef)
    (env : ConnectEnv) (command : Command) :
    Unseen ref mem (onCommand env c command) (onCommand env d command) := by
  have htarget := commandTarget_unseen h command
  cases hc : commandTarget c command with
  | some s =>
    rw [hc, Option.map_some] at htarget
    rw [onCommand_of_some hc, onCommand_of_some htarget, ref_modifySlot, id_withOutput,
      h.freeIds, h.accepting]
    have hmodify := (h.note (.handled command (some s) c.freeIds false)
      (.handled command (some (modifySlot ref (Connection.withOutput mem) s)) c.freeIds
        false)).modify s.ref (commandChange command.cmd)
          (.inr (commandChange_withOutput command.cmd mem))
    exact ⟨hmodify.manager, h.pump, rfl, h.accepting, h.bufSize⟩
  | none =>
    rw [hc, Option.map_none] at htarget
    by_cases hcmd : command.cmd = cmdNew
    · rw [onCommand_new hc hcmd, onCommand_new htarget hcmd, h.bufSize, h.manager,
        cmConnect_modifyConn env href]
      refine sendOrWarn_unseen ?_ _
      exact ⟨rfl, h.pump, h.freeIds, h.accepting, h.bufSize⟩
    · rw [onCommand_of_none hc hcmd, onCommand_of_none htarget hcmd]
      exact h.note _ _

/-! ### Receiving -/

variable {env : PumpEnv} {tunnel : Slot}

theorem decodeTo_unseen (h : Unseen ref mem c d) (env : PumpEnv) (id : ℕ)
    (tunnel tunnel' : Slot) {target : Slot} (hin : tunnel'.conn.inBuf = tunnel.conn.inBuf)
    (href : tunnel'.ref = tunnel.ref) (hne : target.ref ≠ ref) :
    (decodeTo env id tunnel' target d).1 = (decodeTo env id tunnel target c).1 ∧
      Unseen ref mem (decodeTo env id tunnel target c).2 (decodeTo env id tunnel' target d).2 := by
  unfold decodeTo
  rw [hin, href]
  let r := decode env.wild tunnel.conn.inBuf target.conn.outBuf
  have hread := h.modify tunnel.ref (fun conn => { conn with inBuf := r.2.1 }) (.inr fun _ => rfl)
  have hwritten := hread.modify target.ref (fun conn => { conn with outBuf := r.2.2 }) (.inl hne)
  exact ⟨rfl, hwritten.note _ _⟩

/-- What is done with the result of `decode`. -/
theorem unseen_of_decoded {r r' : Bool × Controller} (hsame : r'.1 = r.1)
    (h : Unseen ref mem r.2 r'.2) (id : ℤ) : Unseen ref mem
      (if r.1 then r.2 else r.2.setSendingTo id) (if r'.1 then r'.2 else r'.2.setSendingTo id) := by
  rw [hsame]
  split_ifs
  · exact h
  · exact h.setSendingTo id

theorem nextFrame_unseen (h : Unseen ref mem c d) (hready : PumpReady conns c)
    (ht : lookup c.slots conns 0 = some tunnel) (href : tunnel.ref = ref)
    (hc : nextFrame (onCommand env.connect) env conns c = .ok c₁) :
    ∃ d₁, nextFrame (onCommand env.connect) env conns d = .ok d₁ ∧ Unseen ref mem c₁ d₁ := by
  subst href
  unfold nextFrame at hc ⊢
  rw [ht] at hc
  rw [lookup_unseen_self h ht]
  dsimp only [Connection.withOutput] at hc ⊢
  split_ifs at hc ⊢ with havail hstart hzero hfew
  · exact ⟨d, rfl, Except.ok.inj hc ▸ h⟩
  · cases hc
    let cmd := ((bufPeek tunnel.conn.inBuf 3).getD []).getD 2 0
    let arg := (bufPeekByte (bufAdvanceReadPtr tunnel.conn.inBuf 3)).getD 0
    have hread := h.modify tunnel.ref
      (fun conn => { conn with inBuf := bufAdvanceReadPtr tunnel.conn.inBuf 3 }) (.inr fun _ => rfl)
    have hhandled := onCommand_unseen (hread.note (.received cmd arg) (.received cmd arg))
      (hready.allocated _ (lookup_eq_some ht).1) env.connect ⟨cmd, arg, 0⟩
    exact ⟨_, rfl, hhandled.modify tunnel.ref
      (fun conn => { conn with inBuf := bufAdvanceReadPtr conn.inBuf 2 }) (.inr fun _ => rfl)⟩
  · cases hs : lookup c.slots conns
      (((bufPeek tunnel.conn.inBuf 3).getD []).getD 1 0).toNat with
    | none =>
      rw [hs] at hc
      cases hc
    | some target =>
      have hne : target.ref ≠ tunnel.ref := hready.entries.ref_ne hready.nodup hs ht
        fun hnat => hzero (UInt8.toNat_inj.mp hnat)
      obtain ⟨hsame, hunseen⟩ := decodeTo_unseen h env
        (((bufPeek tunnel.conn.inBuf 3).getD []).getD 1 0).toNat tunnel.afterStart
          { tunnel.afterStart with conn := tunnel.afterStart.conn.withOutput mem } rfl rfl hne
      rw [hs] at hc
      rw [lookup_unseen_of_ne h hs hne]
      cases hc
      exact ⟨_, rfl, unseen_of_decoded hsame hunseen _⟩
  · exact ⟨d, rfl, Except.ok.inj hc ▸ h⟩

/-- **Receiving does not look at the output of the tunnel.** -/
theorem recvFromTunnel_unseen (h : Unseen tunnel.ref mem c d) (hready : PumpReady conns c)
    (ht : lookup c.slots conns 0 = some tunnel)
    (hc : recvFromTunnel (onCommand env.connect) env conns c = .ok c₁) :
    ∃ d₁, recvFromTunnel (onCommand env.connect) env conns d = .ok d₁ ∧
      Unseen tunnel.ref mem c₁ d₁ := by
  unfold recvFromTunnel at hc ⊢
  rw [ht] at hc
  rw [lookup_unseen_self h ht, h.pump]
  dsimp only at hc ⊢
  by_cases hempty : bufEmpty tunnel.conn.inBuf = true
  · rw [if_pos hempty] at hc
    exact ⟨d, if_pos hempty, Except.ok.inj hc ▸ h⟩
  have hempty' : ¬ bufEmpty (tunnel.conn.withOutput mem).inBuf = true := hempty
  rw [if_neg hempty] at hc
  rw [if_neg hempty']
  by_cases hidle : c.pump.sendingTo = -1
  · rw [if_neg (not_not_intro hidle)] at hc
    rw [if_neg (not_not_intro hidle)]
    exact nextFrame_unseen h hready ht rfl hc
  rw [if_pos hidle] at hc
  rw [if_pos hidle]
  cases hs : lookup c.slots conns c.pump.sendingTo.toNat with
  | none =>
    rw [hs] at hc
    cases hc
  | some target =>
    have hk : c.pump.sendingTo.toNat ≠ 0 := by
      have := hready.sendingTo
      omega
    have hne : target.ref ≠ tunnel.ref := hready.entries.ref_ne hready.nodup hs ht hk
    obtain ⟨hsame, hunseen⟩ := decodeTo_unseen h env c.pump.sendingTo.toNat tunnel
      { tunnel with conn := tunnel.conn.withOutput mem } rfl rfl hne
    rw [hs] at hc
    rw [lookup_unseen_of_ne h hs hne]
    dsimp only at hc ⊢
    rw [hsame]
    by_cases hdone : (decodeTo env c.pump.sendingTo.toNat tunnel target c).1 = true
    · rw [if_pos hdone] at hc
      rw [if_pos hdone]
      obtain ⟨i, hi⟩ := Nat.exists_eq_succ_of_ne_zero hk
      have hready' : PumpReady conns (decodeTo env c.pump.sendingTo.toNat tunnel target c).2 :=
        (decodeTo_induction (P := fun _ => True) (fun _ _ _ _ _ => trivial) (fun _ _ => trivial)
          env _ tunnel hready ht rfl (Nat.le_refl _) rfl (hi ▸ hs) trivial).2
      have ht' := tunnel_decodeTo env c.pump.sendingTo.toNat tunnel hready ht hs hk rfl
      exact nextFrame_unseen (hunseen.setSendingTo (-1)) (hready'.setSendingTo (.inl rfl)) ht' rfl
        hc
    · rw [if_neg hdone] at hc
      rw [if_neg hdone]
      exact ⟨_, rfl, Except.ok.inj hc ▸ hunseen⟩

end OsTasks.PortForwarding
