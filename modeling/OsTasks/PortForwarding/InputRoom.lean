import OsTasks.PortForwarding.Receipt
import OsTasks.PortForwarding.Sending
import OsTasks.PortForwarding.Waiting

/-!
# Room for what is polled

`POLLIN` of a connection is set only by `receive`, when there is room in the input. Nothing else
fills an input, so there is still room when `poll` is called.

## Main definitions

* `InputRoom`: `POLLIN` is requested only for an input with room.

## Main results

* `SlotOp.inputRoom`: the operations of the manager keep this.
* `Reach.inputRoom`: it holds for every connection in every run.
-/

namespace OsTasks.PortForwarding

variable {conns : Conns} {c c' : Controller} {s s' : Slot}

/-- `POLLIN` is requested only for an input with room. -/
def InputRoom (s : Slot) : Prop := s.pfd.events.pollin = true → bufFull s.conn.inBuf = false

theorem inputRoom_of_empty (h : s.conn.inBuf.length = 0) : InputRoom s := by
  intro _
  rw [Bool.eq_false_iff, Ne, bufFull_iff, h]
  exact s.conn.inBuf.capacity_pos.ne

/-- Taking bytes from the input makes room. -/
theorem InputRoom.taken (h : InputRoom s) (hpfd : s'.pfd = s.pfd)
    (hle : s'.conn.inBuf.length ≤ s.conn.inBuf.length)
    (hcap : s'.conn.inBuf.capacity = s.conn.inBuf.capacity) : InputRoom s' := by
  intro hpoll
  have hroom := h (hpfd ▸ hpoll)
  rw [Bool.eq_false_iff, Ne, bufFull_iff] at hroom ⊢
  have := s.conn.inBuf.length_le
  omega

/-! ### The operations of the manager -/

theorem inputRoom_rearmIn {fd : Pollfd} {conn : Connection}
    (h : (rearmIn fd conn).events.pollin = true) : bufFull conn.inBuf = false := by
  unfold rearmIn at h
  by_contra hfull
  rw [Bool.not_eq_false] at hfull
  simp [hfull] at h

theorem pollin_rearmOut (fd : Pollfd) (conn : Connection) :
    (rearmOut fd conn).events.pollin = fd.events.pollin := by
  unfold rearmOut
  split_ifs
  · simp
  · simp [setPollfdFlags]

theorem pollin_armOutput (s : Slot) : (armOutput s).pfd.events.pollin = s.pfd.events.pollin := by
  unfold armOutput
  split_ifs
  · rfl
  · simp [setPollfdFlags]
  · rfl

/-- **The manager** sets `POLLIN` only where there is room. -/
theorem SlotOp.inputRoom (hop : SlotOp s s') (h : InputRoom s) : InputRoom s' := by
  cases hop with
  | close => rcases closeSocket_cases s with ⟨-, h'⟩ | ⟨-, -, h'⟩ | ⟨-, -, h'⟩ <;>
      rw [h'] <;> exact h
  | arm =>
    obtain ⟨pfd, harm, -⟩ := armOutput_eq s
    have hpollin := pollin_armOutput s
    rw [harm] at hpollin ⊢
    exact fun hpoll => h (hpollin.symm.trans hpoll)
  | poll => exact h
  | receive r =>
    unfold PortForwarding.receive
    split_ifs
    · exact h
    · exact inputRoom_rearmIn
    · exact inputRoom_rearmIn
  | transmit r =>
    unfold PortForwarding.transmit
    split_ifs
    · exact h
    all_goals exact fun hpoll => h ((pollin_rearmOut _ _).symm.trans hpoll)

/-! ### The phases of an update -/

/-- There is room in every input that is polled. -/
def InputsRoom (c : Controller) : Prop := ∀ s ∈ c.slots, InputRoom s

/-- Taking bytes from the input of one object. -/
theorem InputsRoom.modify (h : InputsRoom c) {ref : ℕ} {f : Connection → Connection}
    (hf : ∀ s ∈ c.slots, s.ref = ref → (f s.conn).inBuf.length ≤ s.conn.inBuf.length ∧
      (f s.conn).inBuf.capacity = s.conn.inBuf.capacity) : InputsRoom (c.modify ref f) := by
  intro s' hs'
  obtain ⟨s, hs, rfl⟩ := List.mem_map.mp hs'
  split_ifs with href
  · exact (h s hs).taken rfl (hf s hs href).1 (hf s hs href).2
  · exact h s hs

theorem InputsRoom.poll {env : PollEnv} {m : Manager} {cause : CloseCause} (h : InputsRoom c)
    (hpoll : cmPoll env c.manager = .ok (m, cause)) : InputsRoom { c with manager := m } := by
  intro s' hs'
  rcases mem_slots_poll hpoll hs' with ⟨s, hs, -, hrun⟩ | ⟨hfresh, -⟩
  · exact hrun.keep SlotOp.inputRoom (h s hs)
  · exact inputRoom_of_empty hfresh.inBuf

theorem InputsRoom.sort (h : InputsRoom c) (hwf : WellFormed c) : InputsRoom c.sort := by
  intro s' hs'
  obtain ⟨s, hs, rfl | ⟨-, id, -, rfl⟩⟩ := hwf.mem_slots_sort hs'
  · exact h _ hs
  · exact h s hs

theorem inBuf_send (t : Turn) (cmd : UInt8) {change : Connection → Connection}
    (hchange : ∀ conn, (change conn).inBuf = conn.inBuf) :
    (t.send cmd change).slot.conn.inBuf = t.slot.conn.inBuf := by
  unfold Turn.send
  split
  · rfl
  · exact hchange _

/-- A turn of `handle_state_changes` leaves the buffers alone. -/
theorem inBuf_stateTurn (s : Slot) (queue : CmdQueue) :
    (stateTurn s queue).slot.conn.inBuf = s.conn.inBuf := by
  have hnew : (announceNew { slot := s, queue := queue }).slot.conn.inBuf = s.conn.inBuf := by
    unfold announceNew
    split_ifs
    · exact inBuf_send _ _ fun _ => rfl
    · rfl
  unfold stateTurn
  dsimp only
  rw [← hnew]
  generalize announceNew { slot := s, queue := queue } = t
  have hin : (announceCloseIn t).slot.conn.inBuf = t.slot.conn.inBuf := by
    unfold announceCloseIn
    split_ifs
    · exact inBuf_send _ _ fun _ => rfl
    · rfl
  split_ifs
  · rfl
  · exact inBuf_send _ _ fun _ => rfl
  · exact hin
  · rw [← hin]
    unfold announceCloseOut
    split_ifs
    · exact inBuf_send _ _ fun _ => rfl
    · rfl

theorem InputsRoom.stateLoop (h : InputsRoom c) (hnd : (c.slots.map Slot.ref).Nodup) (ids : List ℕ)
    (conns : Conns) : InputsRoom (stateLoop ids conns c).2.1 := by
  induction ids generalizing conns c with
  | nil => exact h
  | cons i ids ih =>
    rw [PortForwarding.stateLoop]
    cases hs : lookup c.slots conns i with
    | none => exact ih h hnd conns
    | some s =>
      have happly : InputsRoom (c.apply s (stateTurn s c.pump.cmdQueue)) := by
        refine h.modify fun t ht href => ?_
        rw [eq_of_ref_eq hnd ht (lookup_eq_some hs).1 href, inBuf_stateTurn]
        exact ⟨Nat.le_refl _, rfl⟩
      have hnd' := (map_ref_apply c s (stateTurn s c.pump.cmdQueue)).symm ▸ hnd
      dsimp only
      split_ifs
      · exact happly
      all_goals exact ih happly hnd' _

/-- A connection that has just been opened has an empty input. -/
theorem InputsRoom.onCommand (h : InputsRoom c) (env : ConnectEnv) (command : Command) :
    InputsRoom (onCommand env c command) := by
  obtain ⟨opened, heff⟩ := onCommand_effect env c command
  generalize PortForwarding.onCommand env c command = c' at heff
  rcases heff.slots with ⟨s, -, -, hslots, -⟩ |
    ⟨-, -, ⟨-, hslots, -⟩ | ⟨-, -, s, hslots, hfresh, -⟩⟩
  all_goals
    intro u hu
    rw [hslots] at hu
  · obtain ⟨t, ht, rfl⟩ := List.mem_map.mp hu
    unfold modifySlot
    split_ifs
    · refine (h t ht).taken rfl ?_ ?_ <;> rw [inBuf_commandChange]
    · exact h t ht
  · exact h u hu
  · rcases List.mem_append.mp hu with hu | hu
    · exact h u hu
    · rw [List.mem_singleton.mp hu]
      exact inputRoom_of_empty hfresh.inBuf

theorem InputsRoom.encodeTo (h : InputsRoom c) (hnd : (c.slots.map Slot.ref).Nodup)
    (hs : s ∈ c.slots) (tunnel : Slot) : InputsRoom (c.encodeTo s tunnel) := by
  let r := encode s.conn.inBuf tunnel.conn.outBuf (toByte s.conn.id)
  have h₁ : InputsRoom (c.modify s.ref fun conn => { conn with inBuf := r.2.1 }) :=
    h.modify fun t ht href => by
      obtain rfl := eq_of_ref_eq hnd ht hs href
      exact ⟨length_encode_le .., capacity_encode ..⟩
  have h₂ : InputsRoom ((c.modify s.ref fun conn => { conn with inBuf := r.2.1 }).modify tunnel.ref
      fun conn => { conn with outBuf := r.2.2 }) := h₁.modify fun _ _ _ => ⟨Nat.le_refl _, rfl⟩
  unfold Controller.encodeTo
  dsimp only
  split_ifs <;> exact h₂

/-- **The pump** only takes bytes from inputs. -/
theorem InputsRoom.pumpTransfer {env : PumpEnv} (h : InputsRoom c) (hready : PumpReady conns c)
    (hc : pumpTransfer (PortForwarding.onCommand env.connect) env conns c = .ok c') :
    InputsRoom c' := by
  obtain ⟨c₁, hrecv, rfl⟩ := exists_of_pumpTransfer hc
  obtain ⟨h₁, hready₁⟩ := recvFromTunnel_induction (P := InputsRoom)
    (fun ref f _ hf h => h.modify fun s hs href => ⟨(hf s hs href).1.unread, (hf s hs href).2⟩)
    (fun _ h => h) (fun _ h => h) (fun cmd arg _ h => h.onCommand env.connect ⟨cmd, arg, 0⟩)
    hready h hrecv
  exact sendToTunnel_induction (P := InputsRoom) (fun _ h => h)
    (fun _ _ h => h.modify fun _ _ _ => ⟨Nat.le_refl _, rfl⟩) (fun _ h => h)
    (fun hnd _ _ hs _ _ h => h.encodeTo hnd (lookup_eq_some hs).1 _) (fun _ h => h)
    hready₁.nodup hready₁.entries h₁

/-- **There is room in every input that is polled**, in every run. -/
theorem Reach.inputsRoom {bufSize : ℕ+} {accepting : Bool} (h : Reach bufSize accepting c) :
    InputsRoom c :=
  h.keeps (P := InputsRoom) (fun hpoll h => h.poll hpoll) (fun hwf h => h.sort hwf)
    (fun ids conns hwf h => h.stateLoop hwf.nodup ids conns)
    (fun hwf hconns h hc => h.pumpTransfer (hwf.pumpReady hconns) hc)
    (fun _ s hs => inputRoom_of_empty (by rw [List.mem_singleton.mp hs]; rfl))

end OsTasks.PortForwarding
