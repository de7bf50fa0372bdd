import OsTasks.PortForwarding.Evolution

/-!
# The commands of one connection

The guards that keep `handle_state_changes` from announcing a change twice are spread over three
status bytes, and `CMD_CLOSE` has none: the connection is skipped in the rest of the update and
removed by the next `cm_poll`. This file shows that they do their job in every run, whatever the
sockets and the peer do and however often the queue is full.

## Main definitions

* `Announced`: the bit that stays behind when a command has been queued.
* `Closes`, `EndsInput`: the events after which no command, or no data, may follow.
* `Lifecycle`: the order of the events of a connection.

## Main results

* `command_lifecycle`: every observed state has a trace in this order.
-/

namespace OsTasks.PortForwarding

/-! ### The order of events -/

/-- A connection that was accepted, as opposed to one opened to the service. -/
def Slot.Accepted (s : Slot) : Prop := s.inc = s.ref

/-- The connection at an address is closed: `CMD_CLOSE` is queued for it, or received for it. -/
inductive Closes (ref : ℕ) : PumpEvent → Prop
  | queued {s : Slot} (href : s.ref = ref) : Closes ref (.queued s cmdClose)
  | handled {s : Slot} {command : Command} {stack : List ℤ} {opened : Bool} (href : s.ref = ref)
      (hcmd : command.cmd = cmdClose) : Closes ref (.handled command (some s) stack opened)

/-- The peer is told that no more data of the connection at an address will come. -/
inductive EndsInput (ref : ℕ) : PumpEvent → Prop
  | close {s : Slot} (href : s.ref = ref) : EndsInput ref (.queued s cmdClose)
  | closeIn {s : Slot} (href : s.ref = ref) : EndsInput ref (.queued s cmdCloseSrcToDst)

/-- The order of the events of each connection in a trace, the newest event first. -/
structure Lifecycle (trace : List PumpEvent) : Prop where
  once : trace.Pairwise fun later earlier =>
    ∀ s s' cmd, later = .queued s cmd → earlier = .queued s' cmd → s.ref ≠ s'.ref
  closed : trace.Pairwise fun later earlier =>
    ∀ s cmd, later = .queued s cmd → ¬ Closes s.ref earlier
  ended : trace.Pairwise fun later earlier =>
    ∀ s bytes, later = .encoded s bytes → ¬ EndsInput s.ref earlier
  newFirst : ∀ l₁ s cmd l₂, trace = l₁ ++ .queued s cmd :: l₂ → s.ref ≠ 0 → s.Accepted →
    cmd ≠ cmdNew → ∃ s', s'.ref = s.ref ∧ .queued s' cmdNew ∈ l₂

theorem lifecycle_nil : Lifecycle [] where
  once := .nil
  closed := .nil
  ended := .nil
  newFirst l₁ s cmd l₂ h := by simp at h

/-- An event that is not about a queued command or encoded data can follow any others. -/
theorem Lifecycle.cons {trace : List PumpEvent} (h : Lifecycle trace) {e : PumpEvent}
    (honce : ∀ s cmd, e = .queued s cmd → ∀ s', .queued s' cmd ∈ trace → s.ref ≠ s'.ref)
    (hclosed : ∀ s cmd, e = .queued s cmd → ∀ e' ∈ trace, ¬ Closes s.ref e')
    (hended : ∀ s bytes, e = .encoded s bytes → ∀ e' ∈ trace, ¬ EndsInput s.ref e')
    (hnew : ∀ s cmd, e = .queued s cmd → s.ref ≠ 0 → s.Accepted → cmd ≠ cmdNew →
      ∃ s', s'.ref = s.ref ∧ .queued s' cmdNew ∈ trace) : Lifecycle (e :: trace) where
  once := List.pairwise_cons.mpr
    ⟨fun e' he' s s' cmd hs hs' => honce s cmd hs s' (hs' ▸ he'), h.once⟩
  closed := List.pairwise_cons.mpr ⟨fun e' he' s cmd hs => hclosed s cmd hs e' he', h.closed⟩
  ended := List.pairwise_cons.mpr ⟨fun e' he' s bytes hs => hended s bytes hs e' he', h.ended⟩
  newFirst l₁ s cmd l₂ heq := by
    cases l₁ with
    | nil =>
      obtain ⟨rfl, rfl⟩ := List.cons.inj heq
      exact hnew s cmd rfl
    | cons e' l₁ => exact h.newFirst l₁ s cmd l₂ (List.cons.inj heq).2

/-! ### The invariant -/

/-- The status bit that a queued command leaves behind. -/
structure Announced (cmd : UInt8) (s : Slot) : Prop where
  new : cmd = cmdNew → s.conn.state.new = false
  close : cmd = cmdClose → s.conn.state.delete = true
  closeIn : cmd = cmdCloseSrcToDst → s.conn.inState.delete = true
  closeOut : cmd = cmdCloseDstToSrc → s.conn.outState.delete = true

theorem Announced.evolves {trace : List PumpEvent} {cmd : UInt8} {s s' : Slot}
    (h : Announced cmd s) (hs : Evolves trace s s') : Announced cmd s' where
  new hcmd := hs.new.elim (fun heq => heq.trans (h.new hcmd)) And.left
  close hcmd := hs.delete (h.close hcmd)
  closeIn hcmd := hs.inDelete (h.closeIn hcmd)
  closeOut hcmd := hs.outDelete (h.closeOut hcmd)

/-- What is announced leaves its bit behind. -/
theorem Announces.announced {s : Slot} {cmd : UInt8} {conn : Connection}
    (h : Announces s.conn cmd conn) : Announced cmd { s with conn := conn } := by
  cases h <;> constructor <;> first | exact fun _ => rfl | exact fun h => absurd h (by decide)

/-- What has been announced is not announced again. -/
theorem Announces.not_announced {s : Slot} {cmd : UInt8} {conn : Connection}
    (h : Announces s.conn cmd conn) (hdel : s.conn.state.delete = false) : ¬ Announced cmd s := by
  intro hann
  cases h with
  | new hnew => simp [hann.new rfl] at hnew
  | close => simp [hann.close rfl] at hdel
  | closeIn _ hin => simp [hann.closeIn rfl] at hin
  | closeOut _ hout => simp [hann.closeOut rfl] at hout

/-- The trace is in order, and every connection that is still there carries the bits of what
happened to it. -/
structure LifecycleInv (c : Controller) : Prop where
  lifecycle : Lifecycle c.trace
  queued : ∀ s cmd, .queued s cmd ∈ c.trace → s.ref < c.manager.nextRef ∧
    ∀ t ∈ c.slots, t.ref = s.ref → Announced cmd t
  handled : ∀ s command stack opened, .handled command (some s) stack opened ∈ c.trace →
    command.cmd = cmdClose → s.ref < c.manager.nextRef ∧
      ∀ t ∈ c.slots, t.ref = s.ref → t.conn.state.delete = true
  accepted : ∀ t ∈ c.slots, t.ref ≠ 0 → t.Accepted →
    t.conn.state.new = true ∨ ∃ s, s.ref = t.ref ∧ .queued s cmdNew ∈ c.trace

variable {c c' : Controller}

/-- A connection that has been closed is marked for deletion. -/
theorem LifecycleInv.delete_of_closes (h : LifecycleInv c) {e : PumpEvent} (he : e ∈ c.trace)
    {t : Slot} (ht : t ∈ c.slots) (hcloses : Closes t.ref e) : t.conn.state.delete = true := by
  cases hcloses with
  | queued href => exact ((h.queued _ _ he).2 t ht href.symm).close rfl
  | handled href hcmd => exact (h.handled _ _ _ _ he hcmd).2 t ht href.symm

/-- A connection of which no more data may come is not read any more. -/
theorem LifecycleInv.not_alive_of_endsInput (h : LifecycleInv c) {e : PumpEvent}
    (he : e ∈ c.trace) {t : Slot} (ht : t ∈ c.slots) (hends : EndsInput t.ref e) :
    t.conn.state.delete = true ∨ t.conn.inState.delete = true := by
  cases hends with
  | close href => exact .inl (((h.queued _ _ he).2 t ht href.symm).close rfl)
  | closeIn href => exact .inr (((h.queued _ _ he).2 t ht href.symm).closeIn rfl)

/-! ### Every step -/

/-- A new event comes at its place in the order. -/
theorem LifecycleInv.lifecycle_cons (h : LifecycleInv c) {e : PumpEvent} (he : StepEvent c e) :
    Lifecycle (e :: c.trace) := by
  cases he with
  | @queued s cmd conn hs hid hdel hann =>
    refine h.lifecycle.cons (fun t cmd' heq => ?_) (fun t cmd' heq => ?_) (fun _ _ heq => ?_)
      (fun t cmd' heq href haccepted hcmd => ?_)
    · obtain ⟨rfl, rfl⟩ := PumpEvent.queued.inj heq
      intro s' hs' href
      exact hann.not_announced hdel ((h.queued s' cmd hs').2 s hs href)
    · obtain ⟨rfl, rfl⟩ := PumpEvent.queued.inj heq
      intro e' he' hcloses
      have hdel' := h.delete_of_closes he' hs hcloses
      simp [hdel'] at hdel
    · cases heq
    · obtain ⟨rfl, rfl⟩ := PumpEvent.queued.inj heq
      refine (h.accepted s hs href haccepted).resolve_left fun hnew => ?_
      cases hann with
      | new => exact hcmd rfl
      | close hnew' => simp [hnew] at hnew'
      | closeIn hnew' => simp [hnew] at hnew'
      | closeOut hnew' => simp [hnew] at hnew'
  | delivered =>
    exact h.lifecycle.cons (fun _ _ heq => by cases heq) (fun _ _ heq => by cases heq)
      (fun _ _ heq => by cases heq) (fun _ _ heq => by cases heq)
  | handled =>
    exact h.lifecycle.cons (fun _ _ heq => by cases heq) (fun _ _ heq => by cases heq)
      (fun _ _ heq => by cases heq) (fun _ _ heq => by cases heq)
  | quiet hq =>
    refine h.lifecycle.cons (fun _ _ heq => ?_) (fun _ _ heq => ?_) (fun s bytes heq => ?_)
      (fun _ _ heq => ?_)
    · subst heq
      cases hq
    · subst heq
      cases hq
    · subst heq
      cases hq with
      | encoded _ hs hstate hin =>
        intro e' he' hends
        rw [isAlive_iff] at hstate hin
        rcases h.not_alive_of_endsInput he' hs hends with hdel | hdel
        · simp [hdel] at hstate
        · simp [hdel] at hin
    · subst heq
      cases hq

/-- What is known of the events before a step still holds after it. -/
theorem LifecycleInv.queued_of_step (h : LifecycleInv c) (hwf : WellFormed c) (hstep : Step c c')
    (s : Slot) (cmd : UInt8) (hs : .queued s cmd ∈ c.trace) : s.ref < c'.manager.nextRef ∧
      ∀ t ∈ c'.slots, t.ref = s.ref → Announced cmd t := by
  obtain ⟨hnext, hslots⟩ := hstep.evolves hwf
  obtain ⟨hlt, hann⟩ := h.queued s cmd hs
  refine ⟨hlt.trans_le hnext, fun t' ht' href => ?_⟩
  rcases hslots t' ht' with ⟨t, ht, hev⟩ | ⟨hfresh, -⟩
  · exact (hann t ht (hev.ref.symm.trans href)).evolves hev
  · have := hfresh.ref
    omega

theorem LifecycleInv.handled_of_step (h : LifecycleInv c) (hwf : WellFormed c) (hstep : Step c c')
    (s : Slot) (command : Command) (stack : List ℤ) (opened : Bool)
    (hs : .handled command (some s) stack opened ∈ c.trace) (hcmd : command.cmd = cmdClose) :
    s.ref < c'.manager.nextRef ∧
      ∀ t ∈ c'.slots, t.ref = s.ref → t.conn.state.delete = true := by
  obtain ⟨hnext, hslots⟩ := hstep.evolves hwf
  obtain ⟨hlt, hdel⟩ := h.handled s command stack opened hs hcmd
  refine ⟨hlt.trans_le hnext, fun t' ht' href => ?_⟩
  rcases hslots t' ht' with ⟨t, ht, hev⟩ | ⟨hfresh, -⟩
  · exact hev.delete (hdel t ht (hev.ref.symm.trans href))
  · have := hfresh.ref
    omega

theorem LifecycleInv.accepted_of_step (h : LifecycleInv c) (hwf : WellFormed c)
    (hstep : Step c c') : ∀ t ∈ c'.slots, t.ref ≠ 0 → t.Accepted →
      t.conn.state.new = true ∨ ∃ s, s.ref = t.ref ∧ .queued s cmdNew ∈ c'.trace := by
  intro t' ht' href haccepted
  rcases (hstep.evolves hwf).2 t' ht' with ⟨t, ht, hev⟩ | ⟨hclient | ⟨id, -, hserver⟩, -⟩
  · have hacc : t.Accepted := hev.inc.symm.trans (haccepted.trans hev.ref)
    rcases hev.new with hnew | ⟨-, hqueued⟩
    · refine (h.accepted t ht (hev.ref ▸ href) hacc).imp hnew.trans fun ⟨s, hs, hqueued⟩ => ?_
      exact ⟨s, hs.trans hev.ref.symm, hstep.trace_subset hqueued⟩
    · exact .inr ⟨t, hev.ref.symm, hqueued⟩
  · exact .inl (by rw [hclient.state])
  · exact absurd (haccepted.symm.trans hserver.inc) href

/-- **Every step keeps the events of each connection in order.** -/
theorem Step.lifecycleInv (hwf : WellFormed c) (hstep : Step c c') (h : LifecycleInv c) :
    LifecycleInv c' := by
  have hlifecycle : Lifecycle c'.trace := by
    rcases hstep.trace with heq | ⟨e, he, heq⟩ <;> rw [heq]
    · exact h.lifecycle
    · exact h.lifecycle_cons he
  have hqueued := h.queued_of_step hwf hstep
  have hhandled := h.handled_of_step hwf hstep
  have haccepted := h.accepted_of_step hwf hstep
  -- a step that adds no event about a queued or handled command
  have hkeep : (∀ e ∈ c'.trace, e ∈ c.trace ∨ (∀ s cmd, e ≠ .queued s cmd) ∧
      ∀ command s stack opened, e ≠ .handled command s stack opened) →
      LifecycleInv c' := fun hold =>
    ⟨hlifecycle,
      fun s cmd hs => hqueued s cmd ((hold _ hs).resolve_right fun hne => hne.1 s cmd rfl),
      fun s command stack opened hs => hhandled s command stack opened
        ((hold _ hs).resolve_right fun hne => hne.2 command _ stack opened rfl),
      haccepted⟩
  cases hstep with
  | poll => exact hkeep fun e he => .inl he
  | sort => exact hkeep fun e he => .inl he
  | deliver =>
    refine hkeep fun e he => ?_
    rcases List.mem_cons.mp he with rfl | hmem
    · exact .inr ⟨fun _ _ h => (by cases h), fun _ _ _ _ h => (by cases h)⟩
    · exact .inl hmem
  | quiet hq =>
    refine hkeep fun e he => ?_
    rcases hq.trace with heq | ⟨e', he', heq⟩ <;> rw [heq] at he
    · exact .inl he
    · rcases List.mem_cons.mp he with rfl | hmem
      · refine .inr ⟨fun _ _ h => ?_, fun _ _ _ _ h => ?_⟩ <;> subst h <;> cases he'
      · exact .inl hmem
  | @announce s cmd conn q hs hid hdel hann hq =>
    refine ⟨hlifecycle, fun s' cmd' hs' => ?_, fun s' command stack opened hs' => ?_, haccepted⟩
    · rcases List.mem_cons.mp hs' with heq | hmem
      · obtain ⟨rfl, rfl⟩ := PumpEvent.queued.inj heq
        refine ⟨hwf.allocated s' hs, fun t' ht' href => ?_⟩
        rw [slots_announce, List.mem_map] at ht'
        obtain ⟨t, ht, rfl⟩ := ht'
        rw [ref_modifySlot] at href
        obtain rfl := eq_of_ref_eq hwf.nodup ht hs href
        rw [modifySlot_self]
        exact hann.announced
      · exact hqueued s' cmd' hmem
    · rcases List.mem_cons.mp hs' with heq | hmem
      · cases heq
      · exact hhandled s' command stack opened hmem
  | handle env cmd arg hsend =>
    obtain ⟨opened, heff⟩ := onCommand_effect env c ⟨cmd, arg, 0⟩
    refine ⟨hlifecycle, fun s' cmd' hs' => ?_, fun s' command stack opened' hs' hcmd => ?_,
      haccepted⟩
    · rw [heff.trace] at hs'
      rcases List.mem_cons.mp hs' with heq | hmem
      · cases heq
      · exact hqueued s' cmd' hmem
    · rw [heff.trace] at hs'
      rcases List.mem_cons.mp hs' with heq | hmem
      · obtain ⟨rfl, htarget, -, -⟩ := PumpEvent.handled.inj heq
        rcases heff.slots with ⟨s, hs, -, hslots, hnext, -⟩ | ⟨hnone, -⟩
        · obtain rfl := Option.some.inj (htarget.trans hs)
          have hmem := (commandTarget_eq_some hs).1
          refine ⟨(hwf.allocated s' hmem).trans_eq hnext.symm, fun t' ht' href => ?_⟩
          rw [hslots, List.mem_map] at ht'
          obtain ⟨t, ht, rfl⟩ := ht'
          rw [ref_modifySlot] at href
          obtain rfl := eq_of_ref_eq hwf.nodup ht hmem href
          rw [modifySlot_self, commandChange, if_pos hcmd]
        · exact absurd (htarget.trans hnone) (Option.some_ne_none s')
      · exact hhandled s' command stack opened' hmem hcmd

/-! ### Runs -/

variable {bufSize : ℕ+} {accepting : Bool}

theorem lifecycleInv_startController (env : StartEnv) :
    LifecycleInv (startController env bufSize accepting) where
  lifecycle := lifecycle_nil
  queued _ _ h := absurd h List.not_mem_nil
  handled _ _ _ _ h := absurd h List.not_mem_nil
  accepted t ht href := by
    rw [List.mem_singleton.mp ht] at href
    exact absurd rfl href

/-- **The commands and data of each connection come in order**, in every run, for every connection
object. -/
theorem command_lifecycle {c : Controller} (h : Visit bufSize accepting c) : Lifecycle c.trace :=
  (h.induction lifecycleInv_startController fun hwf hstep => hstep.lifecycleInv hwf).lifecycle

/-- The commands in a trace that were queued for the object at an address, the newest first. -/
def queuedCommands (ref : ℕ) (trace : List PumpEvent) : List UInt8 :=
  trace.filterMap fun
    | .queued s cmd => if s.ref = ref then some cmd else none
    | _ => none

/-- A client connects, is acknowledged, and ends its input. -/
def clientEnds : Option Controller :=
  updates [⟨clientComes 7, samplePump⟩, ⟨tunnelReads [0x7E, 0, 5, 1, 0x7E], samplePump⟩,
      ⟨clientReads [], samplePump⟩]
    (startController sampleStart sampleBufSize true)

theorem command_lifecycle_clientEnds : ∃ c ∈ clientEnds,
    queuedCommands 1 c.trace = [cmdCloseSrcToDst, cmdNew] ∧ Lifecycle c.trace := by
  have hcommands : clientEnds.map (fun c => queuedCommands 1 c.trace) =
      some [cmdCloseSrcToDst, cmdNew] := by decide +kernel
  obtain ⟨c, hc, hqueued⟩ := Option.map_eq_some_iff.mp hcommands
  exact ⟨c, hc, hqueued, command_lifecycle (.reach (reach_updates (.start sampleStart) hc))⟩

end OsTasks.PortForwarding
