import OsTasks.Proxy.SlotTable

/-!
# The proxy from its start to its end

`main` opens the listening socket, runs the main loop until a signal is found or `poll` fails, and
then disconnects the clients and closes the listening socket. The descriptors it has got from the
system are closed once each, but for those of a connection attempt that is given up while closing
the socket to the target fails. The arguments, which only make the addresses, are left out.

## Main definitions

* `ListenEnv`, `Turn`, `Process`, `mainLoop`, `main`: the program.
* `takenFds`, `closedFds`: the descriptors of a trace.
* `liveConns`: the clients that are connected, with their descriptors.

## Main results

* `takenFds_perm`: the descriptors of a trace are closed, or those of the connected clients.
* `main_closes_all`: the program ends, and all that it has got has been closed.
-/

namespace OsTasks.Proxy

open scoped List

/-! ### The program -/

/-- What the system answers to `start_listening_socket`. -/
structure ListenEnv where
  socket : Option ℕ
  bind : Bool
  listen : Bool

/-- A turn of the main loop: the signal is found, or `poll` is interrupted, fails or returns. -/
inductive Turn
  | signalled
  | interrupted
  | failed
  | polled (env : RoundEnv)

/-- The loop ends. -/
def Turn.ends : Turn → Bool
  | .signalled | .failed => true
  | .interrupted | .polled _ => false

/-- The descriptors that `accept_connection` gets. -/
def AcceptEnv.opened (env : AcceptEnv) (s : State) : List ℕ :=
  match env.accept with
  | none => []
  | some incoming => incoming :: if canAddSlot s then env.socket.toList else []

/-- The descriptor that `accept_connection` gets and forgets: it gives up, and closing the socket to
the target fails. -/
def AcceptEnv.lost (env : AcceptEnv) (s : State) : List ℕ :=
  match env.accept, env.socket with
  | some incoming, some _ =>
    if canAddSlot s && !(env.connect && env.malloc.isSome) && !env.close then [incoming] else []
  | _, _ => []

/-- The proxy accepts a connection in the round. -/
def RoundEnv.accepts (env : RoundEnv) (s : State) : Bool :=
  ((poll env.ready (beforePoll s)).fds 0).revents.pollin

/-- The descriptors that the proxy gets in a round. -/
def RoundEnv.opened (env : RoundEnv) (s : State) : List ℕ :=
  if env.accepts s then env.accept.opened s else []

/-- The descriptor that the proxy forgets in a round. -/
def RoundEnv.lost (env : RoundEnv) (s : State) : List ℕ :=
  if env.accepts s then env.accept.lost s else []

/-- The proxy, with the descriptors that it has got and those that it has forgotten. -/
structure Process where
  state : State
  opened : List ℕ
  lost : List ℕ

/-- A round. -/
def Process.round (env : RoundEnv) (p : Process) : Option Process :=
  (Proxy.round env p.state).map fun s =>
    ⟨s, env.opened p.state ++ p.opened, env.lost p.state ++ p.lost⟩

/-- The main loop. It gives `none` if a bad pointer is dereferenced, and as long as no turn ends
it. -/
def mainLoop : List Turn → Process → Option Process
  | [], _ => none
  | .signalled :: _, p => some p
  | .interrupted :: turns, p => mainLoop turns { p with state := beforePoll p.state }
  | .failed :: _, p => some { p with state := beforePoll p.state }
  | .polled env :: turns, p => (p.round env).bind (mainLoop turns)

/-- The descriptors that an event closes. -/
def Event.closes : Event → List ℕ
  | .disconnected _ srcFd dstFd => [srcFd, dstFd]
  | .closeUnused fd => [fd]
  | .connected .. | .call .. => []

/-- The descriptors that are closed in a trace. -/
def closedFds (trace : List Event) : List ℕ := trace.flatMap Event.closes

/-- How the program ends: the exit code, and the descriptors that it has got, forgotten and
closed. -/
structure Outcome where
  exit : ℕ
  opened : List ℕ
  lost : List ℕ
  closed : List ℕ
  deriving DecidableEq

/-- `main`. -/
def main (env : ListenEnv) (turns : List Turn) : Option Outcome :=
  match env.socket with
  | none => some ⟨1, [], [], []⟩
  | some fd =>
    if !env.bind || !env.listen then some ⟨1, [fd], [], [fd]⟩
    else do
      let p ← mainLoop turns ⟨start fd, [fd], []⟩
      let s ← terminate p.state
      return ⟨0, p.opened, p.lost, fd :: closedFds s.trace⟩

/-! ### The descriptors of a trace -/

/-- The descriptors that the proxy has when an event happens, and had not before. -/
def Event.takes : Event → List ℕ
  | .connected _ srcFd dstFd => [srcFd, dstFd]
  | .closeUnused fd => [fd]
  | .disconnected .. | .call .. => []

def takenFds (trace : List Event) : List ℕ := trace.flatMap Event.takes

/-- The clients that are connected, with their descriptors. -/
def liveConns : List Event → List (ℕ × ℕ × ℕ)
  | [] => []
  | .connected ref srcFd dstFd :: past => liveConns past ++ [(ref, srcFd, dstFd)]
  | .disconnected ref _ _ :: past => (liveConns past).filter fun conn => conn.1 ≠ ref
  | .call .. :: past | .closeUnused _ :: past => liveConns past

/-- The two descriptors of a connection. -/
def connFds (conn : ℕ × ℕ × ℕ) : List ℕ := [conn.2.1, conn.2.2]

variable {trace past : List Event} {ref srcFd dstFd : ℕ} {e : Event}

theorem takenFds_append (l l' : List Event) : takenFds (l ++ l') = takenFds l ++ takenFds l' :=
  List.flatMap_append

theorem closedFds_append (l l' : List Event) : closedFds (l ++ l') = closedFds l ++ closedFds l' :=
  List.flatMap_append

theorem map_fst_liveConns (trace : List Event) :
    (liveConns trace).map Prod.fst = liveRefs trace := by
  induction trace with
  | nil => rfl
  | cons e past ih =>
    cases e with
    | connected ref srcFd dstFd => rw [liveConns, liveRefs, List.map_append, ih]; rfl
    | disconnected ref srcFd dstFd => rw [liveConns, liveRefs, ← ih, List.filter_map]; rfl
    | call => exact ih
    | closeUnused => exact ih

theorem mem_of_mem_liveConns (h : (ref, srcFd, dstFd) ∈ liveConns trace) :
    .connected ref srcFd dstFd ∈ trace := by
  induction trace with
  | nil => cases h
  | cons e past ih =>
    refine List.mem_cons.mpr ?_
    cases e with
    | connected =>
      rcases List.mem_append.mp h with h | h
      · exact .inr (ih h)
      · obtain ⟨rfl, rfl, rfl⟩ := by simpa using h
        exact .inl rfl
    | disconnected => exact .inr (ih (List.mem_of_mem_filter h))
    | call => exact .inr (ih h)
    | closeUnused => exact .inr (ih h)

theorem logOk_past (h : ∀ ref, LogOk (about ref (e :: past))) : ∀ ref, LogOk (about ref past) := by
  intro ref
  have hlog := h ref
  unfold about at hlog ⊢
  rw [List.filter_cons] at hlog
  split_ifs at hlog
  · exact hlog.2
  · exact hlog

/-- A client that is connected, and has not been disconnected, is among the live ones. -/
theorem mem_liveConns (hmem : .connected ref srcFd dstFd ∈ about ref trace)
    (hpresent : (about ref trace).countP Event.isDisconnected = 0) :
    (ref, srcFd, dstFd) ∈ liveConns trace := by
  induction trace with
  | nil => cases hmem
  | cons e past ih =>
    unfold about at hmem hpresent ih
    rw [List.filter_cons] at hmem hpresent
    cases e with
    | connected ref' srcFd' dstFd' =>
      refine List.mem_append.mpr ?_
      split_ifs at hmem hpresent
      · rw [List.countP_cons_of_neg (by simp [Event.isDisconnected])] at hpresent
        rcases List.mem_cons.mp hmem with heq | hmem
        · obtain ⟨rfl, rfl, rfl⟩ := Event.connected.inj heq
          exact .inr (List.mem_singleton_self _)
        · exact .inl (ih hmem hpresent)
      · exact .inl (ih hmem hpresent)
    | disconnected ref' =>
      by_cases href : ref' = ref
      · rw [if_pos (by simp [Event.ref?, href]), List.countP_cons_of_pos rfl] at hpresent
        omega
      · rw [if_neg (by simpa [Event.ref?] using href)] at hmem hpresent
        exact List.mem_filter.mpr ⟨ih hmem hpresent, by simpa using Ne.symm href⟩
    | call ref' =>
      split_ifs at hmem hpresent
      · rw [List.countP_cons_of_neg (by simp [Event.isDisconnected])] at hpresent
        exact ih ((List.mem_cons.mp hmem).resolve_left (by simp)) hpresent
      · exact ih hmem hpresent
    | closeUnused => exact ih hmem hpresent

/-- The live clients have different addresses. -/
theorem nodup_liveRefs (h : ∀ ref, LogOk (about ref trace)) : (liveRefs trace).Nodup := by
  induction trace with
  | nil => exact List.nodup_nil
  | cons e past ih =>
    have ih := ih (logOk_past h)
    cases e with
    | connected ref srcFd dstFd =>
      have hnew : about ref past = [] := by
        have hlog := h ref
        unfold about at hlog
        rw [List.filter_cons_of_pos (by simp [Event.ref?])] at hlog
        exact hlog.1
      refine List.nodup_append.mpr ⟨ih, List.nodup_singleton _, fun r hr r' hr' => ?_⟩
      rintro rfl
      rw [List.mem_singleton.mp hr', ← map_fst_liveConns] at hr
      obtain ⟨⟨r, src, dst⟩, hconn, rfl⟩ := List.mem_map.mp hr
      have hmem : .connected r src dst ∈ about r past :=
        List.mem_filter.mpr ⟨mem_of_mem_liveConns hconn, decide_eq_true rfl⟩
      exact absurd (hnew ▸ hmem) List.not_mem_nil
    | disconnected => exact ih.filter _
    | call => exact ih
    | closeUnused => exact ih

/-- Of two keys that are one, only one is left out. -/
theorem perm_cons_filter {l : List (ℕ × ℕ × ℕ)} {a : ℕ × ℕ × ℕ} (hnd : (l.map Prod.fst).Nodup)
    (ha : a ∈ l) : l.Perm (a :: l.filter fun b => b.1 ≠ a.1) := by
  induction l with
  | nil => cases ha
  | cons b l ih =>
    obtain ⟨hnot, hnd⟩ := List.nodup_cons.mp hnd
    rcases List.mem_cons.mp ha with rfl | ha
    · have hrest : l.filter (fun b => b.1 ≠ a.1) = l :=
        List.filter_eq_self.mpr fun b hb => decide_eq_true fun heq =>
          hnot (heq ▸ List.mem_map_of_mem hb)
      rw [List.filter_cons_of_neg (by simp), hrest]
    · have hne : b.1 ≠ a.1 := fun heq => hnot (heq ▸ List.mem_map_of_mem ha)
      rw [List.filter_cons_of_pos (by simpa using hne)]
      exact ((ih hnd ha).cons b).trans (.swap a b _)

/-- **The descriptors of a trace** have been closed, or are those of the live clients. -/
theorem takenFds_perm (h : ∀ ref, LogOk (about ref trace)) :
    (takenFds trace).Perm (closedFds trace ++ (liveConns trace).flatMap connFds) := by
  induction trace with
  | nil => exact .refl _
  | cons e past ih =>
    have ih := ih (logOk_past h)
    cases e with
    | connected ref srcFd dstFd =>
      rw [liveConns, List.flatMap_append, ← List.append_assoc]
      exact (List.perm_append_comm.trans (ih.append_right _))
    | disconnected ref srcFd dstFd =>
      have hok : EventOk (about ref past) (.disconnected ref srcFd dstFd) := by
        have hlog := h ref
        unfold about at hlog
        rw [List.filter_cons_of_pos (by simp [Event.ref?])] at hlog
        exact hlog.1
      obtain ⟨hpresent, -, hmem⟩ := hok
      have hlive : (liveConns past).Perm _ := perm_cons_filter
        (map_fst_liveConns past ▸ nodup_liveRefs (logOk_past h)) (mem_liveConns hmem hpresent)
      refine ih.trans (((hlive.flatMap_right connFds).append_left _).trans ?_)
      exact (List.perm_append_comm_assoc ..)
    | call => exact ih
    | closeUnused fd => exact ih.cons fd

/-! ### The clients in the slots -/

/-- The event that connects a client comes first in its log. -/
theorem eq_nil_of_connected {before : List Event}
    (h : LogOk (before ++ .connected ref srcFd dstFd :: past)) : past = [] := by
  induction before with
  | nil => exact h.1
  | cons e before ih => exact ih h.2

theorem eq_of_connected {log : List Event} {srcFd' dstFd' : ℕ} (h : LogOk log)
    (hmem : .connected ref srcFd dstFd ∈ log) (hmem' : .connected ref srcFd' dstFd' ∈ log) :
    (srcFd, dstFd) = (srcFd', dstFd') := by
  obtain ⟨before, past, rfl⟩ := List.append_of_mem hmem
  obtain rfl := eq_nil_of_connected h
  obtain ⟨before', past', heq⟩ := List.append_of_mem hmem'
  rw [heq] at h
  obtain rfl := eq_nil_of_connected h
  have hlast := List.singleton_inj.mp (List.append_inj' heq rfl).2
  obtain ⟨-, rfl, rfl⟩ := Event.connected.inj hlast
  rfl

/-- Two lists of pairs with the same keys, in which a key determines the pair. -/
theorem eq_of_map_fst {α β : Type*} {l l' : List (α × β)} (h : l.map Prod.fst = l'.map Prod.fst)
    (hkey : ∀ a ∈ l, ∀ b ∈ l', a.1 = b.1 → a = b) : l = l' := by
  refine List.ext_getElem (by simpa using congrArg List.length h) fun i hi hi' => ?_
  refine hkey _ (List.getElem_mem hi) _ (List.getElem_mem hi') ?_
  have hfst := List.getElem_of_eq h (by simpa using hi)
  simpa using hfst

variable {s s' : State} {objs : List Proxied}

/-- A client with its descriptors. -/
def Proxied.conn (o : Proxied) : ℕ × ℕ × ℕ := (o.ref, o.client.srcFd, o.client.dstFd)

/-- The clients in the slots are the live ones. -/
theorem Shows.liveConns_eq (h : Shows s (objs.map some)) (hlife : ∀ o ∈ objs, Life o) :
    liveConns s.trace = objs.map Proxied.conn := by
  refine eq_of_map_fst ?_ fun a ha b hb hab => ?_
  · rw [map_fst_liveConns, ← h.refs_eq, List.map_map]
    rfl
  · obtain ⟨o, ho, rfl⟩ := List.mem_map.mp hb
    obtain ⟨r, src, dst⟩ := a
    obtain rfl : r = o.ref := hab
    have hconnected : .connected o.ref src dst ∈ about o.ref s.trace :=
      List.mem_filter.mpr ⟨mem_of_mem_liveConns ha, decide_eq_true rfl⟩
    obtain ⟨i, hi⟩ := List.mem_iff_getElem?.mp ho
    have hlog := (h.slot i (some o) (by simp [hi])).2.2
    have hconnected' := (hlife o ho).coherent.connected
    rw [← hlog] at hconnected'
    exact congrArg (Prod.mk o.ref)
      (eq_of_connected (h.logOk hlife o.ref).1 hconnected hconnected')

/-- The descriptors that have been taken have been closed, or are those of the clients in the
slots. -/
theorem Reach.takenFds_perm (h : Reach s) : ∃ objs : List Proxied, Shows s (objs.map some) ∧
    (∀ o ∈ objs, Life o) ∧ (takenFds s.trace).Perm
      (closedFds s.trace ++ (objs.map Proxied.conn).flatMap connFds) := by
  obtain ⟨objs, hshows, hlife⟩ := h.shows
  refine ⟨objs, hshows, hlife, ?_⟩
  rw [← hshows.liveConns_eq hlife]
  exact Proxy.takenFds_perm fun ref => (hshows.logOk hlife ref).1

/-- **Termination** closes what is left. -/
theorem Reach.terminate_perm (h : Reach s) :
    ∃ s', terminate s = some s' ∧ (closedFds s'.trace).Perm (takenFds s.trace) := by
  obtain ⟨objs, hshows, hlife, hperm⟩ := h.takenFds_perm
  obtain ⟨s', hend, htrace, -⟩ := hshows.terminate hlife
  refine ⟨s', hend, ?_⟩
  have hleft : (closedFds (objs.map Proxied.disconnect).reverse).Perm
      ((objs.map Proxied.conn).flatMap connFds) := by
    refine ((List.reverse_perm _).flatMap_right Event.closes).trans ?_
    rw [List.flatMap_map, List.flatMap_map]
    exact .refl _
  rw [htrace, closedFds_append]
  exact (hleft.append_right _).trans (List.perm_append_comm.trans hperm.symm)

/-! ### Rounds -/

/-- What happens to the clients that are connected takes nothing. -/
def Event.serves : Event → Bool
  | .call .. | .disconnected .. => true
  | .connected .. | .closeUnused _ => false

theorem takenFds_of_serves {events : List Event} (h : ∀ e ∈ events, e.serves = true) :
    takenFds events = [] := by
  refine List.flatMap_eq_nil_iff.mpr fun e he => ?_
  have hserves := h e he
  cases e with
  | call => rfl
  | disconnected => rfl
  | connected => cases hserves
  | closeUnused => cases hserves

/-- The trace has grown by such events. -/
def Serves (s s' : State) : Prop :=
  ∃ events, s'.trace = events ++ s.trace ∧ ∀ e ∈ events, e.serves = true

theorem Serves.refl (s : State) : Serves s s := ⟨[], rfl, fun _ he => absurd he List.not_mem_nil⟩

theorem Serves.trans {s'' : State} (h : Serves s s') (h' : Serves s' s'') : Serves s s'' := by
  obtain ⟨events, htrace, hall⟩ := h
  obtain ⟨events', htrace', hall'⟩ := h'
  exact ⟨events' ++ events, by rw [htrace', htrace, List.append_assoc],
    List.forall_mem_append.mpr ⟨hall', hall⟩⟩

theorem serves_serveDirection {env : SocketEnv} {dir : Dir} {slot : ℕ}
    (h : serveDirection env dir slot s = some s') : Serves s s' := by
  unfold serveDirection at h
  obtain ⟨ref, -, h⟩ := Option.bind_eq_some_iff.mp h
  obtain ⟨client, -, h⟩ := Option.bind_eq_some_iff.mp h
  split_ifs at h
  · obtain rfl := Option.some.inj h
    refine ⟨_, rfl, fun e he => ?_⟩
    rw [List.mem_reverse, List.mem_map] at he
    obtain ⟨c, -, rfl⟩ := he
    rfl
  · exact Option.some.inj h ▸ .refl s

theorem serves_disconnectClient {slot : ℕ} (h : disconnectClient slot s = some s') :
    Serves s s' := by
  unfold disconnectClient at h
  obtain ⟨ref, -, h⟩ := Option.bind_eq_some_iff.mp h
  obtain ⟨client, -, h⟩ := Option.bind_eq_some_iff.mp h
  obtain rfl := Option.some.inj h
  exact ⟨[_], rfl, fun e he => List.mem_singleton.mp he ▸ rfl⟩

theorem serves_serveSlot {env : SocketEnv} {slot : ℕ} (h : serveSlot env slot s = some s') :
    Serves s s' := by
  unfold serveSlot at h
  obtain ⟨s₁, h₁, h⟩ := Option.bind_eq_some_iff.mp h
  obtain ⟨s₂, h₂, h⟩ := Option.bind_eq_some_iff.mp h
  obtain ⟨ref, -, h⟩ := Option.bind_eq_some_iff.mp h
  obtain ⟨client, -, h⟩ := Option.bind_eq_some_iff.mp h
  have hserves := (serves_serveDirection h₁).trans (serves_serveDirection h₂)
  split_ifs at h
  · exact hserves.trans (serves_disconnectClient h)
  · exact Option.some.inj h ▸ hserves

theorem serves_serveSlots {env : SocketEnv} {n i : ℕ} (h : serveSlots env n i s = some s') :
    Serves s s' := by
  induction n generalizing i s with
  | zero => exact Option.some.inj h ▸ .refl s
  | succ n ih =>
    obtain ⟨s₁, h₁, h⟩ := Option.bind_eq_some_iff.mp h
    exact (serves_serveSlot h₁).trans (ih h)

/-- Giving up a connection attempt. -/
theorem closeBothSockets_perm (env : AcceptEnv) (incoming outcoming : ℕ) (s : State) :
    (takenFds (closeBothSockets env incoming outcoming s).trace ++
      if env.close then [] else [incoming]).Perm (incoming :: outcoming :: takenFds s.trace) := by
  unfold closeBothSockets
  cases env.close with
  | true => exact .of_eq (List.append_nil _)
  | false => exact List.perm_append_singleton incoming (outcoming :: takenFds s.trace)

/-- **Accepting a connection.** What is got is taken, or it is lost. -/
theorem acceptConnection_perm (env : AcceptEnv) (s : State) :
    (takenFds (acceptConnection env s).trace ++ env.lost s).Perm
      (env.opened s ++ takenFds s.trace) := by
  unfold acceptConnection AcceptEnv.lost AcceptEnv.opened
  cases env.accept with
  | none => exact .of_eq (List.append_nil _)
  | some incoming =>
    cases hroom : canAddSlot s with
    | false =>
      cases env.socket <;> exact .of_eq (List.append_nil _)
    | true =>
      cases env.socket with
      | none => exact .of_eq (List.append_nil _)
      | some outcoming =>
        have hgivenUp := closeBothSockets_perm env incoming outcoming s
        cases hconnect : env.connect with
        | false => cases hclose : env.close <;> simpa [hclose] using hgivenUp
        | true =>
          unfold addClient makeClient
          rw [hroom]
          cases env.malloc with
          | none => cases hclose : env.close <;> simpa [hclose] using hgivenUp
          | some mem =>
            have hslot : (s.clientsCount : ℤ) ≠ -1 := by omega
            simp [addSlot, hslot, takenFds, Event.takes]

theorem trace_shrinkSlots (s : State) : (shrinkSlots s).trace = s.trace :=
  (shrinkLoop_frame s.clientsCount (j := 0) (i := 0) s).2.2

/-- **A round** takes what it gets, or loses it. -/
theorem takenFds_round {env : RoundEnv} (h : round env s = some s') :
    (takenFds s'.trace ++ env.lost s).Perm (env.opened s ++ takenFds s.trace) := by
  set s₁ := poll env.ready (beforePoll s) with hs₁
  obtain ⟨s₂, hs₂, hs'⟩ := Option.bind_eq_some_iff.mp h
  obtain ⟨events, htrace, hall⟩ := serves_serveSlots hs₂
  rw [← Option.some.inj hs', trace_shrinkSlots, htrace, takenFds_append, takenFds_of_serves hall,
    List.nil_append]
  change (takenFds (if env.accepts s then acceptConnection env.accept s₁ else s₁).trace ++ _).Perm _
  unfold RoundEnv.lost RoundEnv.opened
  split_ifs
  · exact acceptConnection_perm env.accept s₁
  · exact .of_eq (List.append_nil _)

/-- The account of the proxy: what it has got has been taken, or lost, or it is the listening
socket. -/
structure Process.Accounts (listeningSocket : ℕ) (p : Process) : Prop where
  reach : Reach p.state
  perm : (takenFds p.state.trace ++ (listeningSocket :: p.lost)).Perm p.opened

variable {p : Process} {listeningSocket : ℕ}

theorem accounts_start (listeningSocket : ℕ) :
    Process.Accounts listeningSocket ⟨start listeningSocket, [listeningSocket], []⟩ :=
  ⟨.start listeningSocket, .refl _⟩

theorem Process.Accounts.interrupted (h : p.Accounts listeningSocket) :
    Process.Accounts listeningSocket { p with state := beforePoll p.state } :=
  ⟨h.reach.interrupted, h.perm⟩

theorem Process.Accounts.round (h : p.Accounts listeningSocket) (env : RoundEnv) :
    ∃ p', p.round env = some p' ∧ p'.Accounts listeningSocket := by
  obtain ⟨objs, hshows, hlife⟩ := h.reach.shows
  obtain ⟨s', -, hround, -⟩ := hshows.round hlife env
  refine ⟨_, by rw [Process.round, hround]; rfl, h.reach.round env hround, ?_⟩
  calc takenFds s'.trace ++ (listeningSocket :: (env.lost p.state ++ p.lost))
      ~ takenFds s'.trace ++ env.lost p.state ++ (listeningSocket :: p.lost) := by
        rw [List.append_assoc]
        exact List.perm_middle.symm.append_left _
    _ ~ env.opened p.state ++ takenFds p.state.trace ++ (listeningSocket :: p.lost) :=
        (takenFds_round hround).append_right _
    _ ~ env.opened p.state ++ p.opened := by
        rw [List.append_assoc]
        exact h.perm.append_left _

/-- **The main loop** ends in the turn that ends it, and keeps the account. -/
theorem Process.Accounts.mainLoop (h : p.Accounts listeningSocket) {turns : List Turn}
    (hends : ∃ turn ∈ turns, turn.ends = true) :
    ∃ p', Proxy.mainLoop turns p = some p' ∧ p'.Accounts listeningSocket := by
  induction turns generalizing p with
  | nil =>
    obtain ⟨turn, hturn, -⟩ := hends
    cases hturn
  | cons turn turns ih =>
    have hrest (hgoes : turn.ends = false) : ∃ turn ∈ turns, turn.ends = true := by
      obtain ⟨turn', hmem, hturn'⟩ := hends
      rcases List.mem_cons.mp hmem with rfl | hmem
      · rw [hgoes] at hturn'
        cases hturn'
      · exact ⟨turn', hmem, hturn'⟩
    cases turn with
    | signalled => exact ⟨p, rfl, h⟩
    | interrupted => exact ih h.interrupted (hrest rfl)
    | failed => exact ⟨_, rfl, h.interrupted⟩
    | polled env =>
      obtain ⟨p₁, hround, h₁⟩ := h.round env
      rw [Proxy.mainLoop, hround]
      exact ih h₁ (hrest rfl)

theorem RoundEnv.lost_eq_nil {env : RoundEnv} (h : env.accept.close = true) (s : State) :
    env.lost s = [] := by
  have hnone : env.accept.lost s = [] := by
    unfold AcceptEnv.lost
    rw [h]
    cases env.accept.accept <;> cases env.accept.socket <;> simp
  unfold RoundEnv.lost
  rw [hnone, ite_self]

/-- Nothing is lost as long as sockets can be closed. -/
theorem lost_mainLoop {turns : List Turn} {p' : Process} (h : mainLoop turns p = some p')
    (hclose : ∀ env, .polled env ∈ turns → env.accept.close = true) : p'.lost = p.lost := by
  induction turns generalizing p with
  | nil => cases h
  | cons turn turns ih =>
    have hrest : ∀ env, .polled env ∈ turns → env.accept.close = true := fun env henv =>
      hclose env (List.mem_cons_of_mem _ henv)
    cases turn with
    | signalled => rw [← Option.some.inj h]
    | interrupted =>
      rw [mainLoop] at h
      have hlost := ih h hrest
      exact hlost
    | failed => rw [← Option.some.inj h]
    | polled env =>
      obtain ⟨p₁, hround, hloop⟩ := Option.bind_eq_some_iff.mp h
      obtain ⟨s', -, rfl⟩ := Option.map_eq_some_iff.mp hround
      rw [ih hloop hrest]
      change env.lost p.state ++ p.lost = p.lost
      rw [RoundEnv.lost_eq_nil (hclose env List.mem_cons_self), List.nil_append]

/-- **The program closes what it opens.** If the signal is found or `poll` fails at last, the
program ends, with exit code `0` exactly if the listening socket has been set up. Every descriptor
that it has got has then been closed once, but for those that are lost, which there are only if
closing a socket to the target has failed. -/
theorem main_closes_all (env : ListenEnv) (turns : List Turn)
    (hends : ∃ turn ∈ turns, turn.ends = true) :
    ∃ out, main env turns = some out ∧
      (out.exit = 0 ↔ (∃ fd, env.socket = some fd) ∧ env.bind = true ∧ env.listen = true) ∧
        (out.closed ++ out.lost) ~ out.opened ∧
          ((∀ env, .polled env ∈ turns → env.accept.close = true) → out.lost = []) := by
  unfold main
  cases env.socket with
  | none => exact ⟨_, rfl, by simp, .refl _, fun _ => rfl⟩
  | some fd =>
    cases hsetup : !env.bind || !env.listen with
    | true =>
      refine ⟨_, rfl, iff_of_false Nat.one_ne_zero fun hgood => ?_, .refl _, fun _ => rfl⟩
      rw [hgood.2.1, hgood.2.2] at hsetup
      cases hsetup
    | false =>
      obtain ⟨p, hloop, haccounts⟩ := (accounts_start fd).mainLoop hends
      obtain ⟨s, hend, hperm⟩ := haccounts.reach.terminate_perm
      refine ⟨⟨0, p.opened, p.lost, fd :: closedFds s.trace⟩, ?_, iff_of_true rfl ?_, ?_,
        lost_mainLoop hloop⟩
      · simp only [Bool.false_eq_true, if_false, hloop, hend, Option.bind_eq_bind,
          Option.bind_some]
        rfl
      · simpa using hsetup
      · refine .trans ?_ haccounts.perm
        exact List.perm_middle.symm.trans (hperm.append_right _)

/-- A client stays connected, and for another one the target cannot be reached. -/
def refusedClient : List Turn :=
  let refused := acceptRound 6
  [.polled (acceptRound 4), .interrupted,
    .polled { refused with accept := { refused.accept with connect := false } }, .signalled]

theorem main_closes_all_refusedClient :
    main ⟨some 3, true, true⟩ refusedClient = some ⟨0, [6, 7, 4, 5, 3], [], [3, 4, 5, 6, 7]⟩ ∧
      [3, 4, 5, 6, 7] ~ [6, 7, 4, 5, 3] := by
  have hmain : main ⟨some 3, true, true⟩ refusedClient =
      some ⟨0, [6, 7, 4, 5, 3], [], [3, 4, 5, 6, 7]⟩ := by decide +kernel
  obtain ⟨out, hout, -, hperm, -⟩ := main_closes_all ⟨some 3, true, true⟩ refusedClient
    ⟨.signalled, by simp [refusedClient], rfl⟩
  rw [hmain] at hout
  obtain rfl := Option.some.inj hout
  exact ⟨hmain, hperm⟩

end OsTasks.Proxy
