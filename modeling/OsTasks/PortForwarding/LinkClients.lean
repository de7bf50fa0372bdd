import OsTasks.PortForwarding.Agreement
import OsTasks.PortForwarding.Link

/-!
# Clients and ids over the streams of bytes

What two endpoints keep over channels of whole frames, they keep over the streams of bytes between
their tunnels, as long as no buffer wraps: a client is served once, the updates are turns of parties
that use ids again, and the endpoints agree on their connections. The frames in a channel are those
whose bytes are to come.

## Main definitions

* `Link.Brings`: the frames whose bytes are to come.
* `ReliableRun`: a run of the link in which neither `CMD_NEW` nor `CMD_CLOSE` is lost.

## Main results

* `link_served_once`: a client is at one place of its way at most.
* `link_turn`: an update is a turn.
* `link_endpoints_agree`: the endpoints agree on their connections.
-/

namespace OsTasks.PortForwarding

open ReusedIds
open scoped List

/-- The frames from `b` to `a` whose bytes are unread at `a`, on their way or unsent at `b`. Some of
the bytes of the first one may have been taken. -/
def Link.Brings (l : Link) (frames : List Frame) : Prop :=
  ∃ flight, l.atB.written 0 = l.atA.read 0 ++ flight ∧
    Carries l.system.a.pump.sendingTo (l.toCome flight) frames

/-- The links after updates that lose neither `CMD_NEW` nor `CMD_CLOSE`. -/
inductive ReliableRun : Link → Prop
  | start (envA envB : StartEnv) (bufSizeA bufSizeB : ℕ+) :
      ReliableRun { system := .start envA envB bufSizeA bufSizeB }
  | first {l : Link} {env : Env} {a' : Controller} (h : ReliableRun l) (hstep : LinkStep l env a')
      (hloses : Loses (· = .other) l.system env a') : ReliableRun (l.after env a')
  | second {l : Link} {env : Env} {b' : Controller} (h : ReliableRun l)
      (hstep : LinkStep l.swap env b') (hloses : Loses (· = .other) l.swap.system env b') :
      ReliableRun (l.swap.after env b').swap

variable {l : Link} {env : Env} {a' b' : Controller} {L : Kind → Prop}

/-- An update of the accepting endpoint takes the frames that the other one has sent. -/
theorem Link.Ok.exchange (h : l.Ok) (hstep : LinkStep l env a') : Exchange l.system env a' :=
  have hserved := h.run.servedOnce
  (hstep.keeps hserved.wellFormedA hserved.nodup.1 h.bytesA h.toA h.toB).1

/-- So does an update of the connecting endpoint. -/
theorem Link.Ok.exchange_swap (h : l.Ok) (hstep : LinkStep l.swap env b') :
    Exchange l.swap.system env b' :=
  have hserved := h.run.servedOnce
  (hstep.keeps hserved.wellFormedB hserved.nodup.2 h.bytesB h.toB h.toA).1

theorem ReliableRun.linkRun (h : ReliableRun l) : LinkRun l := by
  induction h with
  | start envA envB bufSizeA bufSizeB => exact .start envA envB bufSizeA bufSizeB
  | first _ hstep _ ih => exact ih.first hstep
  | second _ hstep _ ih => exact ih.second hstep

theorem ReliableRun.systemRun (h : ReliableRun l) : SystemRun Reliable l.system := by
  induction h with
  | start envA envB bufSizeA bufSizeB => exact .start envA envB bufSizeA bufSizeB
  | first h hstep hloses ih =>
    exact ih.first (h.linkRun.ok.exchange hstep) ⟨hstep.orderly, hloses⟩
  | second h hstep hloses ih =>
    exact ih.second (h.linkRun.ok.exchange_swap hstep) ⟨hstep.orderly, hloses⟩

/-! ### Results -/

/-- **The updates of a run are turns.** An update that loses messages of some kinds only is a turn
of a party that uses ids again and loses messages of these kinds. -/
theorem link_turn (h : LinkRun l) :
    (∀ env a', LinkStep l env a' → Loses L l.system env a' →
        ReusedIds.Turn L l.system.world (l.after env a').system.world) ∧
      ∀ env b', LinkStep l.swap env b' → Loses L l.swap.system env b' →
        ReusedIds.Turn L l.swap.system.world (l.swap.after env b').system.world := by
  have hok := h.ok
  obtain ⟨hfirst, hsecond⟩ := exchange_turn (L := L) hok.run
  exact ⟨fun env a' hstep => hfirst env a' (hok.exchange hstep) hstep.orderly,
    fun env b' hstep => hsecond env b' (hok.exchange_swap hstep) hstep.orderly⟩

/-- **The endpoints agree.** In every run that loses neither `CMD_NEW` nor `CMD_CLOSE`, the channels
have the frames whose bytes are to come, and a known connection of an endpoint is known at the other
one as well, or the command that opens it there or closes it here is under way. When no bytes are to
come and no commands are queued, both know the same connections, of the same clients, under the same
ids. -/
theorem link_endpoints_agree (h : ReliableRun l) :
    (∃ frames, l.Brings frames ∧ frames.map Frame.packet = l.system.toA) ∧
      (∃ frames, l.swap.Brings frames ∧ frames.map Frame.packet = l.system.toB) ∧
        (∀ t ∈ l.system.a.slots, t.known = true → Joined l.system t) ∧
          (∀ t ∈ l.system.b.slots, t.known = true → Joined l.swap.system t) ∧
            (l.Quiet → l.swap.Quiet → l.system.a.pump.cmdQueue.contents = [] →
              l.system.b.pump.cmdQueue.contents = [] →
                listed l.system.a ~ listed l.system.b) := by
  obtain ⟨-, ⟨flight, frames, hwritten, hpackets, hcarries⟩,
    flight', frames', hwritten', hpackets', hcarries'⟩ := link_systemRun h.linkRun
  obtain ⟨hjoined, hjoined', hagree⟩ := endpoints_agree h.systemRun
  refine ⟨⟨frames, ⟨flight, hwritten, hcarries⟩, hpackets⟩,
    ⟨frames', ⟨flight', hwritten', hcarries'⟩, hpackets'⟩, hjoined, hjoined',
    fun hquiet hquiet' hqueueA hqueueB => ?_⟩
  obtain ⟨htoB, htoA⟩ := link_quiet h.linkRun
  exact hagree ⟨(htoA hquiet).1, (htoB hquiet').1, hqueueA, hqueueB⟩

/-! ### Samples -/

/-- A client has gone, and the next one has got its id. -/
def secondClient : List (Bool × Env) :=
  bothClose ++ [takesCommand true cmdClose, takesCommand false cmdClose,
    (false, ⟨clientComes 8, samplePump⟩), writes false, takesCommand true cmdNew, writes true,
    takesCommand false cmdAck]

/-- The first update of the connecting endpoint opens a connection for a client that has come. -/
theorem link_turn_newClient : ∃ l env b', LinkRun l ∧ LinkStep l.swap env b' ∧
    l.swap.system.world.mine.length = 1 ∧ (l.swap.after env b').system.world.mine.length = 2 ∧
      ReusedIds.Turn (· = .other) l.swap.system.world (l.swap.after env b').system.world := by
  let env : Env := ⟨tunnelReads (commandFrame cmdNew 1), samplePump⟩
  have hplay : (sampleLink.play [(false, ⟨clientComes 7, samplePump⟩), writes false]).any
      (fun l => l.swap.system.world.mine.length == 1 && (l.swap.turn env).any fun l' =>
        l'.system.world.mine.length == 2 &&
          decide (Loses (· = .other) l.swap.system env l'.system.a)) = true := by
    decide +kernel
  obtain ⟨l, hl, hturn⟩ := (Option.any_eq_true _ _).mp hplay
  rw [Bool.and_eq_true, beq_iff_eq] at hturn
  obtain ⟨hlen, hturn⟩ := hturn
  obtain ⟨l', hl', hturn⟩ := (Option.any_eq_true _ _).mp hturn
  rw [Bool.and_eq_true, beq_iff_eq, decide_eq_true_eq] at hturn
  obtain ⟨hlen', hloses⟩ := hturn
  obtain ⟨b', hstep, rfl⟩ := Link.exists_of_turn hl'
  have hrun : LinkRun l := LinkRun.play (.start ..) hl
  exact ⟨l, env, b', hrun, hstep, hlen, hlen', (link_turn hrun).2 env b' hstep hloses⟩

/-- The link after updates of `a` and, where it is marked so, of `b`, if none loses `CMD_NEW` or
`CMD_CLOSE`. -/
def Link.playReliable : List (Bool × Env) → Link → Option Link
  | [], l => some l
  | (false, env) :: turns, l => (l.turn env).bind fun l' =>
    if Loses (· = .other) l.system env l'.system.a then playReliable turns l' else none
  | (true, env) :: turns, l => (l.swap.turn env).bind fun l' =>
    if Loses (· = .other) l.swap.system env l'.system.a then playReliable turns l'.swap else none

theorem ReliableRun.play {turns : List (Bool × Env)} {l' : Link} (h : ReliableRun l)
    (hplay : l.playReliable turns = some l') : ReliableRun l' := by
  induction turns generalizing l with
  | nil => exact Option.some.inj hplay ▸ h
  | cons turn turns ih =>
    obtain ⟨second, env⟩ := turn
    cases second with
    | false =>
      obtain ⟨l₁, hturn, hrest⟩ := Option.bind_eq_some_iff.mp hplay
      obtain ⟨a', hstep, rfl⟩ := Link.exists_of_turn hturn
      split_ifs at hrest with hloses
      exact ih (h.first hstep hloses) hrest
    | true =>
      obtain ⟨l₁, hturn, hrest⟩ := Option.bind_eq_some_iff.mp hplay
      obtain ⟨b', hstep, rfl⟩ := Link.exists_of_turn hturn
      split_ifs at hrest with hloses
      exact ih (h.second hstep hloses) hrest

/-- Nothing is on its way, and both endpoints list the second client under the id of the first
one. -/
theorem link_endpoints_agree_secondClient : ∃ l, ReliableRun l ∧
    listed l.system.a = [(0, 0), (1, 2)] ∧ listed l.system.a ~ listed l.system.b := by
  have hplay : (sampleLink.playReliable secondClient).any (fun l =>
      decide (listed l.system.a = [(0, 0), (1, 2)] ∧ l.Quiet ∧ l.swap.Quiet ∧
        l.system.a.pump.cmdQueue.contents = [] ∧ l.system.b.pump.cmdQueue.contents = [])) =
          true := by
    decide +kernel
  obtain ⟨l, hl, hquiet⟩ := (Option.any_eq_true _ _).mp hplay
  obtain ⟨hlisted, hquiet, hquiet', hqueueA, hqueueB⟩ := of_decide_eq_true hquiet
  have hrun : ReliableRun l := ReliableRun.play (.start ..) hl
  exact ⟨l, hrun, hlisted, (link_endpoints_agree hrun).2.2.2.2 hquiet hquiet' hqueueA hqueueB⟩

end OsTasks.PortForwarding
