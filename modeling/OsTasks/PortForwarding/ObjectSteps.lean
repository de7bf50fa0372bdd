import OsTasks.PortForwarding.Calls
import OsTasks.PortForwarding.Evolution

/-!
# Invariants of connections over whole runs

The slot operations of `cm_poll` keep an `ObjectInvariant`. What the rest of an update does to a
connection is one of a few changes: it gets an id, a change of it is announced, a command of the
peer is carried out, bytes are moved. An invariant that these changes keep holds in every run, as
far as the events of the run are those for which the changes keep it.

## Main definitions

* `StepInvariant`: an invariant of a connection and its log that every other change keeps, if the
  event it leaves in the trace is an allowed one.

## Main results

* `Objects.step`, `Visit.objects`: it is kept by every step, and holds in every run.
-/

namespace OsTasks.PortForwarding

/-- An invariant `I` of a connection and its log that is kept outside `cm_poll` by the changes whose
events are allowed; `J` holds for a client whose `accept` has failed. -/
structure StepInvariant (I J : List SysCall → Slot → Prop) (Allowed : PumpEvent → Prop) : Prop where
  unbacked : ∀ malloc bufSize ref log, QuietLog log → J log (clientSlot malloc bufSize ref (-1) 0)
  assigned : ∀ {stack log s s'}, Assigned stack s s' → I log s → I log s'
  announces : ∀ {log s cmd conn}, 1 ≤ s.conn.id → Announces s.conn cmd conn →
    Allowed (.queued s cmd) → I log s → I log { s with conn := conn }
  commandChange : ∀ {log s command stack opened}, Allowed (.handled command (some s) stack opened) →
    I log s → I log { s with conn := commandChange command.cmd s.conn }
  moved : ∀ {log s s'}, BufferStep s s' → s.conn.id = 0 ∨ s'.conn.outBuf = s.conn.outBuf →
    I log s → I log s'
  delivered : ∀ {log s s' id}, BufferStep s s' → s.conn.state.delete = false →
    Allowed (.delivered id 0 s (s'.conn.outBuf.contents.drop s.conn.outBuf.length)) →
      I log s → I log s'

variable {I J : List SysCall → Slot → Prop} {G : List SysCall → Prop} {Allowed : PumpEvent → Prop}
  {c c' : Controller} {s : Slot}

/-- The invariant after the object at one address has changed. -/
theorem Objects.modify (h : Objects I G c.manager) (hs : s ∈ c.slots) {f : Connection → Connection}
    (hslots : c'.slots = c.slots.map (modifySlot s.ref f)) (hlog : c'.manager.log = c.manager.log)
    (hnext : c'.manager.nextRef = c.manager.nextRef)
    (hf : ∀ log, I log s → I log { s with conn := f s.conn }) : Objects I G c'.manager := by
  have hrefs : c'.manager.slots.map Slot.ref = c.manager.slots.map Slot.ref := by
    change c'.slots.map Slot.ref = c.slots.map Slot.ref
    rw [hslots]
    exact map_ref_modifyConn c.slots s.ref f
  refine h.change hrefs (fun t' ht' => ?_) hlog hnext
  change t' ∈ c'.slots at ht'
  rw [hslots] at ht'
  obtain ⟨t, ht, rfl⟩ := List.mem_map.mp ht'
  refine ⟨t, ht, (ref_modifySlot _ _ t).symm, ?_⟩
  exact modifySlot_rel h.nodup hs (P := fun t t' => ∀ log, I log t → I log t') hf
    (fun _ _ _ _ hinv => hinv) ht

theorem Objects.sort (h : Objects I G c.manager) (hinv : StepInvariant I J Allowed)
    (hwf : WellFormed c) : Objects I G c.sort.manager := by
  refine h.change (map_ref_of_assigned hwf.sort_assigns.forall₂.1) (fun s' hs' => ?_) rfl rfl
  obtain ⟨s, hs, hass⟩ := hwf.mem_slots_sort hs'
  exact ⟨s, hs, hass.ref.symm, fun log hs => hinv.assigned hass hs⟩

theorem Objects.moved (h : Objects I G c.manager) (hinv : StepInvariant I J Allowed)
    (hmoved : SlotsMoved 0 c.slots c'.slots) (hlog : c'.manager.log = c.manager.log)
    (hnext : c'.manager.nextRef = c.manager.nextRef) : Objects I G c'.manager := by
  refine h.change hmoved.map_ref (fun s' hs' => ?_) hlog hnext
  obtain ⟨g, hslots, hg, hout⟩ := hmoved
  change s' ∈ c'.slots at hs'
  rw [hslots] at hs'
  obtain ⟨s, hs, rfl⟩ := List.mem_map.mp hs'
  exact ⟨s, hs, (hg s hs).ref.symm, fun log hI => hinv.moved (hg s hs) (hout s hs) hI⟩

/-- Delivering: the tunnel gives bytes away, the target gets them. -/
theorem Objects.deliver (h : Objects I G c.manager) (hinv : StepInvariant I J Allowed)
    (env : PumpEnv)
    (id : ℕ) (tunnel : Slot) {target : Slot} (htarget : target ∈ c.slots)
    (hdel : target.conn.state.delete = false)
    (hallowed : Allowed (.delivered id 0 target
      ((decode env.wild tunnel.conn.inBuf target.conn.outBuf).2.2.contents.drop
        target.conn.outBuf.length))) : Objects I G (c.deliver env id tunnel target).manager := by
  let r := decode env.wild tunnel.conn.inBuf target.conn.outBuf
  let take : Connection → Connection := fun conn => { conn with inBuf := r.2.1 }
  let give : Connection → Connection := fun conn => { conn with outBuf := r.2.2 }
  have hslots : (c.deliver env id tunnel target).manager.slots =
      c.slots.map fun s => modifySlot target.ref give (modifySlot tunnel.ref take s) := by
    change modifyConn (modifyConn c.slots tunnel.ref take) target.ref give = _
    rw [modifyConn_eq_map, modifyConn_eq_map, List.map_map]
    rfl
  have hrefs (s : Slot) : (modifySlot target.ref give (modifySlot tunnel.ref take s)).ref = s.ref :=
    (ref_modifySlot ..).trans (ref_modifySlot ..)
  have htake (s : Slot) : BufferStep s (modifySlot tunnel.ref take s) ∧
      (modifySlot tunnel.ref take s).conn.outBuf = s.conn.outBuf := by
    unfold modifySlot
    split_ifs <;> exact ⟨⟨rfl, rfl, rfl, rfl, rfl, rfl, rfl, rfl, Nat.le_refl _⟩, rfl⟩
  refine h.change ?_ (fun s' hs' => ?_) rfl rfl
  · rw [hslots, List.map_map]
    exact List.map_congr_left fun s _ => hrefs s
  · rw [hslots] at hs'
    obtain ⟨s, hs, rfl⟩ := List.mem_map.mp hs'
    refine ⟨s, hs, (hrefs s).symm, fun log hI => ?_⟩
    obtain ⟨hstep, hout⟩ := htake s
    by_cases href : s.ref = target.ref
    · obtain rfl := eq_of_ref_eq h.nodup hs htarget href
      rw [modifySlot_of_eq (ref_modifySlot ..)]
      refine hinv.delivered ⟨hstep.ref, hstep.inc, hstep.own, hstep.pfd, hstep.id, hstep.state,
        hstep.inState, hstep.outState, ?_⟩ hdel hallowed hI
      exact length_decode ..
    · rw [modifySlot_of_ne ((ref_modifySlot ..).trans_ne href)]
      exact hinv.moved hstep (.inr hout) hI

theorem Objects.handle (h : Objects I G c.manager) (hobj : ObjectInvariant I J G)
    (hinv : StepInvariant I J Allowed) (env : ConnectEnv) (command : Command)
    (hallowed : ∀ s, commandTarget c command = some s →
      Allowed (.handled command (some s) c.freeIds false)) :
    Objects I G (onCommand env c command).manager := by
  cases htarget : commandTarget c command with
  | some s =>
    rw [onCommand_of_some htarget]
    exact h.modify (commandTarget_eq_some htarget).1 rfl rfl rfl fun log hI =>
      hinv.commandChange (hallowed s htarget) hI
  | none =>
    by_cases hcmd : command.cmd = cmdNew
    · obtain ⟨q, hq⟩ := onCommand_connect env htarget hcmd
      rw [hq]
      exact h.cmConnect hobj env c.bufSize c.bufSize command.arg.toNat command.tag
    · rw [onCommand_of_none htarget hcmd]
      exact h

/-- **Every step keeps the invariant**, if the events of the run are allowed. -/
theorem Objects.step (h : Objects I G c.manager) (hobj : ObjectInvariant I J G)
    (hinv : StepInvariant I J Allowed) (hwf : WellFormed c) (hstep : Step c c')
    (hallowed : ∀ e ∈ c'.trace, Allowed e) : Objects I G c'.manager := by
  cases hstep with
  | poll hpoll => exact h.cmPoll hobj (.inr hinv.unbacked) hpoll
  | sort => exact h.sort hinv hwf
  | announce hs hid _ hann =>
    exact h.modify hs (slots_announce ..) rfl rfl fun log hI =>
      hinv.announces hid hann (hallowed _ List.mem_cons_self) hI
  | deliver env tunnel hid hlast hdel =>
    exact h.deliver hinv env _ tunnel (mem_of_lastWithId hlast).1 hdel
      (hallowed _ List.mem_cons_self)
  | handle env cmd arg =>
    refine h.handle hobj hinv env _ fun s htarget => hallowed _ ?_
    rw [onCommand_of_some htarget]
    exact List.mem_cons_self
  | quiet hq => exact h.moved hinv hq.moved hq.log hq.nextRef

/-- **The invariant holds in every run** whose events are allowed. -/
theorem Visit.objects {bufSize : ℕ+} {accepting : Bool} (h : Visit bufSize accepting c)
    (hobj : ObjectInvariant I J G) (hinv : StepInvariant I J Allowed)
    (hstart : ∀ env, ∀ s ∈ (startController env bufSize accepting).slots,
      I [.opened 0 env.tunnel] s)
    (hallowed : ∀ e ∈ c.trace, Allowed e) : Objects I G c.manager :=
  h.induction (P := fun c => (∀ e ∈ c.trace, Allowed e) → Objects I G c.manager)
    (fun env _ => objects_single rfl rfl rfl rfl (hstart env _ List.mem_cons_self))
    (fun hwf hstep ih hallowed =>
      (ih fun e he => hallowed e (hstep.trace_subset he)).step hobj hinv hwf hstep hallowed)
    hallowed

end OsTasks.PortForwarding
