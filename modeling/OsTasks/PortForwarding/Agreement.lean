import OsTasks.PortForwarding.Turns

/-!
# The endpoints agree on their connections

In an orderly run over channels of whole frames, in which no `CMD_NEW` and no `CMD_CLOSE` is lost, a
connection that has been announced is listed by both endpoints, or the command that opens it there
or closes it here is under way. So no connection is left at one endpoint only: when nothing is under
way, both list the same connections, of the same clients.

## Main definitions

* `Reliable`: an orderly update that loses neither `CMD_NEW` nor `CMD_CLOSE`.
* `UnderWay`: a frame is in the channel, or its command is queued.
* `Joined`: a connection has a counterpart, or will have none.
* `listed`: the connections of an endpoint that both have learned of.

## Main results

* `exchange_turn`: the updates of a run are turns of parties that use ids again.
* `endpoints_agree`: the endpoints agree on their connections.
-/

namespace OsTasks.PortForwarding

open ReusedIds
open scoped List

/-- Neither `CMD_NEW` nor `CMD_CLOSE` is lost. -/
def Reliable (s : System) (env : Env) (a' : Controller) : Prop :=
  Orderly s env a' ∧ Loses (· = .other) s env a'

/-- The frame is in the channel, or its command is queued. -/
def UnderWay (channel : List Packet) (c : Controller) (p : Packet) : Prop :=
  p ∈ channel ∨ p ∈ c.pump.cmdQueue.contents.map Command.packet

/-- A connection of `a` has a counterpart at `b`, or `CMD_NEW` is under way to `b`, or `CMD_CLOSE`
to `a`. -/
def Joined (s : System) (t : Slot) : Prop :=
  (∃ u ∈ s.b.slots, u.conn.id = t.conn.id ∧ u.inc = t.inc ∧ u.conn.state.delete = false ∧
      u.conn.state.new = false) ∨
    UnderWay s.toB s.a ⟨.command cmdNew (toByte t.conn.id), t.inc⟩ ∨
      UnderWay s.toA s.b ⟨.command cmdClose (toByte t.conn.id), t.inc⟩

/-- The connection has an id, has been announced, and is not about to be removed. -/
def Slot.known (t : Slot) : Bool :=
  decide (0 ≤ t.conn.id) && !t.conn.state.new && !t.conn.state.delete

/-- The ids of the known connections, with their clients. -/
def listed (c : Controller) : List (ℤ × ℕ) :=
  (c.slots.filter Slot.known).map fun t => (t.conn.id, t.inc)

variable {s : System} {t : Slot}

theorem Slot.known_iff : t.known = true ↔
    0 ≤ t.conn.id ∧ t.conn.state.new = false ∧ t.conn.state.delete = false := by
  simp [Slot.known, and_assoc]

/-! ### Frames under way -/

theorem exists_packet {channel : List Packet} {c : Controller} {m : Message}
    (hm : m ∈ inFlight channel c) : ∃ p, UnderWay channel c p ∧ p.message = m := by
  rcases List.mem_append.mp hm with hm | hm
  · obtain ⟨p, hp, rfl⟩ := List.mem_map.mp hm
    exact ⟨p, .inl hp, rfl⟩
  · obtain ⟨command, hcommand, rfl⟩ := List.mem_map.mp hm
    exact ⟨command.packet, .inr (List.mem_map_of_mem hcommand), rfl⟩

theorem commandKind_injective {cmd cmd' : UInt8} (h : commandKind cmd = commandKind cmd')
    (hcmd : cmd = cmdNew ∨ cmd = cmdClose) : cmd' = cmd := by
  unfold commandKind at h
  rcases hcmd with rfl | rfl
  · rw [if_pos rfl] at h
    split_ifs at h with hnew
    exact hnew
  · rw [if_neg (by decide), if_pos rfl] at h
    split_ifs at h with hnew hclose
    exact hclose

/-- A message that opens or closes is a command. -/
theorem packet_of_message {p : Packet} {cmd : UInt8} {i : ℕ} {tag : ℕ}
    (hp : p.message = ⟨commandKind cmd, i, tag⟩) (hcmd : cmd = cmdNew ∨ cmd = cmdClose) :
    p = ⟨.command cmd (toByte i), tag⟩ := by
  obtain ⟨start, τ⟩ := p
  obtain ⟨hkind, hid, rfl⟩ := Message.mk.inj hp
  cases start with
  | command cmd' arg =>
    obtain rfl : cmd' = cmd := commandKind_injective hkind.symm hcmd
    subst hid
    have harg : toByte (arg.toNat : ℤ) = arg := by
      refine UInt8.toNat_inj.mp ((toNat_toByte (by omega) ?_).trans (Int.toNat_natCast _))
      have := arg.toNat_lt
      omega
    exact congrArg (fun b => Packet.mk (.command cmd' b) τ) harg.symm
  | data id => exact absurd hkind.symm (commandKind_ne_data cmd)

/-! ### Runs -/

/-- Runs of updates that meet a stronger condition. -/
theorem SystemRun.mono {G G' : System → Env → Controller → Prop}
    (hGG' : ∀ s env a', G s env a' → G' s env a') (h : SystemRun G s) : SystemRun G' s := by
  induction h with
  | start envA envB bufSizeA bufSizeB => exact .start envA envB bufSizeA bufSizeB
  | first _ hx hG ih => exact ih.first hx (hGG' _ _ _ hG)
  | second _ hx hG ih => exact ih.second hx (hGG' _ _ _ hG)

theorem SystemRun.orderly (h : SystemRun Reliable s) : SystemRun Orderly s :=
  h.mono fun _ _ _ => And.left

theorem matched_after {env : Env} {a' : Controller} (h : Matched s.world) (hcoherent : Coherent s)
    (hx : Exchange s env a') (hG : Reliable s env a') : Matched (s.after env a').world := by
  obtain ⟨T, hsafe⟩ := hcoherent.safe
  exact (turn_of_exchange hcoherent hx hG.1 hG.2).matched (fun _ hkind => hkind) hsafe h

/-- **Every connection has its counterpart** in every reliable run. -/
theorem SystemRun.matched (h : SystemRun Reliable s) : Matched s.world := by
  induction h with
  | start envA envB bufSizeA bufSizeB =>
    have hworld : (System.start envA envB bufSizeA bufSizeB).world =
        ⟨[⟨some 0, 0, false, false⟩], [⟨some 0, 0, false, false⟩], [], []⟩ := rfl
    exact hworld ▸ matched_single _ (Option.some_ne_none 0) rfl
  | first h hx hG ih => exact matched_after ih h.orderly.coherent hx hG
  | @second s _ _ h hx hG ih =>
    have hswap : Matched s.swap.world := ih.swap
    exact (matched_after hswap h.orderly.coherent.swap hx hG).swap

/-- What the invariants say of one endpoint. -/
theorem joined_of_matched (hcoherent : Coherent s) (hmatched : Matched s.world) (ht : t ∈ s.a.slots)
    (hknown : t.known = true) : Joined s t := by
  obtain ⟨hid, hnew, hdel⟩ := Slot.known_iff.mp hknown
  obtain ⟨T, hsafe⟩ := hcoherent.safe
  have hidt : t.entry.id = some t.conn.id.toNat := entry_id.mpr (by omega)
  have hbyte : toByte (t.conn.id.toNat : ℤ) = toByte t.conn.id := by rw [Int.toNat_of_nonneg hid]
  rcases hsafe.counterpart hmatched (List.mem_map_of_mem ht) hdel hnew hidt with
    ⟨f, hf, hfid, hftag, hfopen, hfnew⟩ | ⟨m, hm, hkind, hmid, hmtag⟩ | ⟨m, hm, hkind, hmid, hmtag⟩
  · obtain ⟨u, hu, rfl⟩ := List.mem_map.mp hf
    have hidu := entry_id.mp hfid
    exact .inl ⟨u, hu, by omega, hftag, hfopen, hfnew⟩
  · obtain ⟨p, hp, rfl⟩ := exists_packet hm
    have heq : p.message = ⟨commandKind cmdNew, t.conn.id.toNat, t.inc⟩ :=
      Message.mk.injEq .. ▸ ⟨hkind, hmid, hmtag⟩
    rw [packet_of_message heq (.inl rfl), hbyte] at hp
    exact .inr (.inl hp)
  · obtain ⟨p, hp, rfl⟩ := exists_packet hm
    have heq : p.message = ⟨commandKind cmdClose, t.conn.id.toNat, t.inc⟩ :=
      Message.mk.injEq .. ▸ ⟨hkind, hmid, hmtag⟩
    rw [packet_of_message heq (.inr rfl), hbyte] at hp
    exact .inr (.inr hp)

/-- The known connections have different ids. -/
theorem nodup_listed (hcoherent : Coherent s) : (listed s.a).Nodup := by
  obtain ⟨T, hsafe⟩ := hcoherent.safe
  have hdistinct : ((s.a.slots.map Slot.entry).filterMap Entry.id).Nodup := hsafe.out.distinct
  rw [List.filterMap_map, List.Nodup, List.pairwise_filterMap] at hdistinct
  unfold listed
  rw [List.Nodup, List.pairwise_map, List.pairwise_filter]
  refine hdistinct.imp fun {t u} hne ht hu heq => ?_
  have hid := (Slot.known_iff.mp ht).1
  have hidt : t.entry.id = some t.conn.id.toNat := entry_id.mpr (by omega)
  have hidu : u.entry.id = some t.conn.id.toNat :=
    entry_id.mpr ((Prod.mk.inj heq).1.symm.trans (by omega))
  exact hne _ hidt _ hidu rfl

/-- Nothing is under way between the endpoints. -/
structure System.Quiet (s : System) : Prop where
  toA : s.toA = []
  toB : s.toB = []
  queueA : s.a.pump.cmdQueue.contents = []
  queueB : s.b.pump.cmdQueue.contents = []

theorem System.Quiet.swap (h : s.Quiet) : s.swap.Quiet := ⟨h.toB, h.toA, h.queueB, h.queueA⟩

theorem System.Quiet.mem_listed (h : s.Quiet) (hcoherent : Coherent s) (hmatched : Matched s.world)
    {x : ℤ × ℕ} (hx : x ∈ listed s.a) : x ∈ listed s.b := by
  obtain ⟨t, ht, rfl⟩ := List.mem_map.mp hx
  obtain ⟨ht, hknown⟩ := List.mem_filter.mp ht
  have hnone {channel : List Packet} {c : Controller} {p : Packet} (hchannel : channel = [])
      (hqueue : c.pump.cmdQueue.contents = []) : ¬ UnderWay channel c p := by
    unfold UnderWay
    simp [hchannel, hqueue]
  rcases joined_of_matched hcoherent hmatched ht hknown with
    ⟨u, hu, hid, hinc, hdel, hnew⟩ | hp | hp
  · refine List.mem_map.mpr ⟨u, List.mem_filter.mpr ⟨hu, Slot.known_iff.mpr ⟨?_, hnew, hdel⟩⟩, ?_⟩
    · rw [hid]
      exact (Slot.known_iff.mp hknown).1
    · rw [hid, hinc]
  · exact absurd hp (hnone h.toB h.queueA)
  · exact absurd hp (hnone h.toA h.queueB)

/-! ### Results -/

/-- **The updates of a run are turns.** In every orderly run over channels of whole frames, an
orderly update of an endpoint that loses messages of some kinds only is a turn of a party that uses
ids again and loses messages of these kinds. -/
theorem exchange_turn {L : Kind → Prop} (h : SystemRun Orderly s) :
    (∀ env a', Exchange s env a' → Orderly s env a' → Loses L s env a' →
        ReusedIds.Turn L s.world (s.after env a').world) ∧
      ∀ env b', Exchange s.swap env b' → Orderly s.swap env b' → Loses L s.swap env b' →
        ReusedIds.Turn L s.swap.world (s.swap.after env b').world :=
  ⟨fun _ _ => turn_of_exchange h.coherent, fun _ _ => turn_of_exchange h.coherent.swap⟩

/-- **The endpoints agree.** In every reliable run over channels of whole frames, a known connection
of an endpoint is known at the other one as well, or the command that opens it there or closes it
here is under way. When nothing is under way, both know the same connections, of the same clients,
under the same ids. -/
theorem endpoints_agree (h : SystemRun Reliable s) :
    (∀ t ∈ s.a.slots, t.known = true → Joined s t) ∧
      (∀ t ∈ s.b.slots, t.known = true → Joined s.swap t) ∧
        (s.Quiet → listed s.a ~ listed s.b) := by
  have hcoherent := h.orderly.coherent
  have hmatched := h.matched
  have hswap : Matched s.swap.world := hmatched.swap
  refine ⟨fun t => joined_of_matched hcoherent hmatched,
    fun t => joined_of_matched hcoherent.swap hswap, fun hquiet => ?_⟩
  exact (List.perm_ext_iff_of_nodup (nodup_listed hcoherent) (nodup_listed hcoherent.swap)).mpr
    fun x => ⟨hquiet.mem_listed hcoherent hmatched, hquiet.swap.mem_listed hcoherent.swap hswap⟩

end OsTasks.PortForwarding
