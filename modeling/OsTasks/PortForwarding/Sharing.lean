import OsTasks.PortForwarding.Receipt
import OsTasks.PortForwarding.Sending

/-!
# The order in which connections get room in the tunnel

`pump_transfer` encodes the inputs of the connections in round-robin order. The order is computed
from `current_index` by `(index + i) % 255 + 1`, so it begins behind the saved connection. The id
that is saved is the one that was refused, and it comes last in the next transfer.

## Main definitions

* `visitOrder`: the ids in the order of the loop.
* `encodeCalls`: the calls of `encode` in one run of the loop.
* `AtConnections`: `pump_transfer` gets past the commands.
* `FirstTried`: the first connection with unread input for which `encode` is called.

## Main results

* `currentIndex_of_refused`: the id of the refused connection is saved.
* `firstTried_iff_find`: the first connection tried is the first one in the order of the loop.
* `refused_first_iff`: when a refused connection is tried first.
-/

namespace OsTasks.PortForwarding

variable {conns conns₂ : Conns} {c c' e c₂ e₂ : Controller} {s tunnel : Slot} {k : ℕ}
  {env env₂ : PumpEnv}

/-! ### The order of the loop -/

/-- The ids in the order of the loop over the connections. -/
def visitOrder (index : ℕ) : List ℕ :=
  (List.range (maxConnections - 1)).map fun i => (index + i) % 255 + 1

theorem mem_visitOrder {index j : ℕ} : j ∈ visitOrder index ↔ 1 ≤ j ∧ j ≤ 255 := by
  rw [visitOrder, List.mem_map]
  constructor
  · rintro ⟨i, -, rfl⟩
    omega
  · rintro ⟨hpos, hle⟩
    -- the step of the loop that comes to `j`
    refine ⟨(j - 1 + 255 - index % 255) % 255, ?_, ?_⟩
    · rw [List.mem_range, maxConnections]
      omega
    · omega

theorem nodup_visitOrder (index : ℕ) : (visitOrder index).Nodup := by
  refine List.Nodup.map_on (fun i hi j hj heq => ?_) List.nodup_range
  rw [List.mem_range, maxConnections] at hi hj
  omega

/-- A connection that is saved comes last. -/
theorem visitOrder_eq_append (hpos : 1 ≤ k) (hle : k ≤ 255) :
    visitOrder k = (List.range 254).map (fun i => (k + i) % 255 + 1) ++ [k] := by
  have hrange : List.range (maxConnections - 1) = List.range 254 ++ [254] := List.range_succ
  rw [visitOrder, hrange, List.map_append, List.map_singleton]
  congr 2
  omega

theorem mem_before_last {j : ℕ} (hpos : 1 ≤ k) (hle : k ≤ 255) :
    j ∈ (List.range 254).map (fun i => (k + i) % 255 + 1) ↔ (1 ≤ j ∧ j ≤ 255) ∧ j ≠ k := by
  have hnd := nodup_visitOrder k
  rw [visitOrder_eq_append hpos hle, List.nodup_append] at hnd
  have hmem : j ∈ visitOrder k ↔ 1 ≤ j ∧ j ≤ 255 := mem_visitOrder
  rw [visitOrder_eq_append hpos hle, List.mem_append, List.mem_singleton] at hmem
  rw [← hmem]
  constructor
  · exact fun hj => ⟨.inl hj, hnd.2.2 j hj k (List.mem_singleton_self k)⟩
  · exact fun ⟨hj, hne⟩ => hj.resolve_right hne

/-! ### The calls of `encode` -/

/-- The calls of `encode` in the loop over the connections: the connection, and whether there was
room for it. -/
def encodeCalls (conns : Conns) (index : ℕ) : List ℕ → Controller → List (Slot × Bool)
  | [], _ => []
  | i :: is, c =>
    match lookup c.slots conns ((index + i) % 255 + 1), lookup c.slots conns 0 with
    | some s, some tunnel =>
      if !isAlive s.conn.state || !isAlive s.conn.inState then encodeCalls conns index is c
      else
        let fits := (encode s.conn.inBuf tunnel.conn.outBuf (toByte s.conn.id)).1
        (s, fits) :: if fits then encodeCalls conns index is (c.encodeTo s tunnel) else []
    | _, _ => encodeCalls conns index is c

theorem encodeCalls_cons (index i : ℕ) (is : List ℕ)
    (hs : lookup c.slots conns ((index + i) % 255 + 1) = some s)
    (ht : lookup c.slots conns 0 = some tunnel) :
    encodeCalls conns index (i :: is) c =
      if !isAlive s.conn.state || !isAlive s.conn.inState then encodeCalls conns index is c
      else (s, (encode s.conn.inBuf tunnel.conn.outBuf (toByte s.conn.id)).1) ::
        if (encode s.conn.inBuf tunnel.conn.outBuf (toByte s.conn.id)).1 then
          encodeCalls conns index is (c.encodeTo s tunnel)
        else [] := by
  rw [encodeCalls, hs, ht]

/-- The id that is saved is the id of the refused connection. -/
theorem currentIndex_of_refused (index : ℕ) (is : List ℕ) (hnd : (c.slots.map Slot.ref).Nodup)
    (hentries : EntriesAt conns c.slots) (h : (s, false) ∈ encodeCalls conns index is c) :
    (encodeConnections conns index is c).pump.currentIndex = s.conn.id ∧
      1 ≤ s.conn.id ∧ s.conn.id ≤ 255 := by
  induction is generalizing c with
  | nil => exact absurd h List.not_mem_nil
  | cons i is ih =>
    cases hi : lookup c.slots conns ((index + i) % 255 + 1) with
    | none =>
      rw [encodeCalls, hi] at h
      rw [encodeConnections, hi]
      exact ih hnd hentries h
    | some u =>
      cases ht : lookup c.slots conns 0 with
      | none =>
        rw [encodeCalls, hi, ht] at h
        rw [encodeConnections, hi, ht]
        exact ih hnd hentries h
      | some tunnel =>
        rw [encodeCalls_cons index i is hi ht] at h
        rw [encodeConnections_cons index i is hi ht]
        split_ifs at h ⊢ with hdead hfits
        · exact ih hnd hentries h
        · have hsent := (encodeTo_sent hnd hentries hi ht).1
          refine ih (hsent.map_ref ▸ hnd) (hsent.entriesAt hentries)
            ((List.mem_cons.mp h).resolve_left fun heq => ?_)
          exact absurd (hfits.symm.trans (Prod.mk.inj heq).2.symm) (by decide)
        · obtain ⟨rfl, -⟩ := Prod.mk.inj (List.mem_singleton.mp h)
          have hid := hentries.id hnd hi
          dsimp only
          omega

/-- Entry `j` of the array, if it points to a connection with unread input that the loop does not
skip. -/
def pendingAt (conns : Conns) (c : Controller) (j : ℕ) : Option Slot :=
  (lookup c.slots conns j).filter fun s =>
    isAlive s.conn.state && isAlive s.conn.inState && !bufEmpty s.conn.inBuf

theorem pendingAt_congr (h : c'.slots = c.slots) : pendingAt conns c' = pendingAt conns c := by
  unfold pendingAt
  rw [h]

/-- **The first connection tried** is the first one in the order of the loop. -/
theorem find_encodeCalls (index : ℕ) (is : List ℕ) (hnd : (c.slots.map Slot.ref).Nodup)
    (ht : lookup c.slots conns 0 = some tunnel) :
    ((encodeCalls conns index is c).map Prod.fst).find? (fun s => !bufEmpty s.conn.inBuf) =
      (is.map fun i => (index + i) % 255 + 1).findSome? (pendingAt conns c) := by
  induction is generalizing c with
  | nil => rfl
  | cons i is ih =>
    rw [List.map_cons, List.findSome?_cons]
    cases hi : lookup c.slots conns ((index + i) % 255 + 1) with
    | none =>
      have hnone : pendingAt conns c ((index + i) % 255 + 1) = none := by
        rw [pendingAt, hi]
        rfl
      rw [encodeCalls, hi, hnone]
      exact ih hnd ht
    | some u =>
      rw [encodeCalls_cons index i is hi ht]
      by_cases hdead : (!isAlive u.conn.state || !isAlive u.conn.inState) = true
      · have hnone : pendingAt conns c ((index + i) % 255 + 1) = none := by
          rw [← Bool.not_and, Bool.not_eq_true'] at hdead
          rw [pendingAt, hi, Option.filter_some, hdead]
          rfl
        rw [if_pos hdead, hnone]
        exact ih hnd ht
      · have halive : (isAlive u.conn.state && isAlive u.conn.inState) = true :=
          by simpa using hdead
        rw [if_neg hdead, List.map_cons, List.find?_cons]
        have hpending : pendingAt conns c ((index + i) % 255 + 1) =
            if bufEmpty u.conn.inBuf then none else some u := by
          rw [pendingAt, hi, Option.filter_some, halive]
          cases bufEmpty u.conn.inBuf <;> rfl
        rw [hpending]
        by_cases hempty : bufEmpty u.conn.inBuf = true
        · have hlen := (bufEmpty_iff _).mp hempty
          have hsame := slots_encodeTo_of_empty hnd (lookup_eq_some hi).1 (lookup_eq_some ht).1 hlen
          rw [hempty, encode_of_empty hlen]
          exact (ih (hsame.symm ▸ hnd) (hsame.symm ▸ ht)).trans (by rw [pendingAt_congr hsame]; rfl)
        · rw [Bool.not_eq_true] at hempty
          rw [hempty]
          rfl

/-- The first connection with unread input for which `encode` is called is connection `k`. -/
def FirstTried (conns : Conns) (c : Controller) (k : ℕ) : Prop :=
  ∃ s, ((encodeCalls conns c.pump.currentIndex (List.range (maxConnections - 1)) c).map
    Prod.fst).find? (fun s => !bufEmpty s.conn.inBuf) = some s ∧ s.conn.id = k

theorem findSome_eq_bind (l : List ℕ) (f : ℕ → Option Slot) :
    l.findSome? f = (l.find? fun j => (f j).isSome).bind f := by
  induction l with
  | nil => rfl
  | cons j l ih =>
    rw [List.findSome?_cons, List.find?_cons]
    cases hj : f j with
    | none => exact ih
    | some s => exact hj.symm

theorem id_of_pendingAt (hnd : (c.slots.map Slot.ref).Nodup) (hentries : EntriesAt conns c.slots)
    {j : ℕ} (h : pendingAt conns c j = some s) : s.conn.id = j :=
  hentries.id hnd (Option.filter_eq_some_iff.mp h).1

theorem firstTried_iff_find (hnd : (c.slots.map Slot.ref).Nodup)
    (hentries : EntriesAt conns c.slots)
    (ht : lookup c.slots conns 0 = some tunnel) :
    FirstTried conns c k ↔
      (visitOrder c.pump.currentIndex).find? (fun j => (pendingAt conns c j).isSome) = some k := by
  have hfirst := find_encodeCalls c.pump.currentIndex (List.range (maxConnections - 1)) hnd ht
  rw [← visitOrder, findSome_eq_bind] at hfirst
  unfold FirstTried
  rw [hfirst]
  constructor
  · rintro ⟨s, hs, hid⟩
    obtain ⟨j, hj, hpending⟩ := Option.bind_eq_some_iff.mp hs
    rw [hj, ← Int.ofNat_inj.mp ((id_of_pendingAt hnd hentries hpending).symm.trans hid)]
  · intro hk
    have hsome : (pendingAt conns c k).isSome = true :=
      List.find?_some (p := fun j => (pendingAt conns c j).isSome) hk
    obtain ⟨s, hs⟩ := Option.isSome_iff_exists.mp hsome
    exact ⟨s, by rw [hk]; exact hs, id_of_pendingAt hnd hentries hs⟩

/-- Behind the connection that was saved, this one is first only if it is alone. -/
theorem find_visitOrder_iff {p : ℕ → Bool} (hpos : 1 ≤ k) (hle : k ≤ 255) (hk : p k = true) :
    (visitOrder k).find? p = some k ↔ ∀ j, 1 ≤ j → j ≤ 255 → p j = true → j = k := by
  rw [visitOrder_eq_append hpos hle, List.find?_append, List.find?_singleton, if_pos hk]
  constructor
  · intro hfind j hj hj' hp
    by_contra hne
    have hmem := (mem_before_last hpos hle).mpr ⟨⟨hj, hj'⟩, hne⟩
    cases hbefore : ((List.range 254).map fun i => (k + i) % 255 + 1).find? p with
    | none => exact absurd hp (List.find?_eq_none.mp hbefore j hmem)
    | some i =>
      rw [hbefore, Option.some_or, Option.some.injEq] at hfind
      exact ((mem_before_last hpos hle).mp (List.mem_of_find?_eq_some hbefore)).2 hfind
  · intro halone
    have hbefore : ((List.range 254).map fun i => (k + i) % 255 + 1).find? p = none := by
      refine List.find?_eq_none.mpr fun j hj hp => ?_
      obtain ⟨⟨hj, hj'⟩, hne⟩ := (mem_before_last hpos hle).mp hj
      exact hne (halone j hj hj' hp)
    rw [hbefore, Option.none_or]

/-! ### Two transfers -/

/-- The state in which `pump_transfer` comes to the connections, if it gets past the commands. -/
def toConnections (env : PumpEnv) (conns : Conns) (c : Controller) : Option Controller :=
  match recvFromTunnel (onCommand env.connect) env conns c with
  | .error _ => none
  | .ok c₁ =>
    let r := drainCommands conns (cmdqLength c₁.pump.cmdQueue) c₁
    if r.1 then some r.2 else none

/-- `pump_transfer` gets past the commands, in the state `e`. -/
def AtConnections (env : PumpEnv) (conns : Conns) (c e : Controller) : Prop :=
  toConnections env conns c = some e

theorem atConnections_iff : AtConnections env conns c e ↔
    ∃ c₁, recvFromTunnel (onCommand env.connect) env conns c = .ok c₁ ∧
      drainCommands conns (cmdqLength c₁.pump.cmdQueue) c₁ = (true, e) := by
  unfold AtConnections toConnections
  cases recvFromTunnel (onCommand env.connect) env conns c with
  | error fault => simp
  | ok c₁ => simp [Prod.ext_iff]

theorem currentIndex_drainCommands (conns : Conns) (n : ℕ) (c : Controller) :
    (drainCommands conns n c).2.pump.currentIndex = c.pump.currentIndex :=
  drainCommands_induction (P := fun c' => c'.pump.currentIndex = c.pump.currentIndex)
    (fun _ h => h) (fun _ _ h => h) (fun _ h => h) n rfl

/-- The transfer ends with the loop over the connections. -/
theorem AtConnections.pumpTransfer (h : AtConnections env conns c e) :
    PortForwarding.pumpTransfer (onCommand env.connect) env conns c =
      .ok (encodeConnections conns e.pump.currentIndex (List.range (maxConnections - 1)) e) := by
  obtain ⟨c₁, hrecv, hdrain⟩ := atConnections_iff.mp h
  rw [pumpTransfer_eq, hrecv, ← sendToTunnel_of_sent hdrain]
  rfl

/-- What the loop over the connections relies on. -/
theorem AtConnections.entry (h : AtConnections env conns c e) (hready : PumpReady conns c) :
    (e.slots.map Slot.ref).Nodup ∧ EntriesAt conns e.slots ∧
      e.pump.currentIndex = c.pump.currentIndex ∧ ∃ tunnel, lookup e.slots conns 0 =
        some tunnel := by
  obtain ⟨c₁, hrecv, hdrain⟩ := atConnections_iff.mp h
  obtain ⟨hreceipt, hready₁⟩ := recvFromTunnel_receipt hready hrecv
  obtain ⟨hsent, -⟩ := drainCommands_sent (cmdqLength c₁.pump.cmdQueue) hready₁.nodup
    hready₁.entries
  have hindex := currentIndex_drainCommands conns (cmdqLength c₁.pump.cmdQueue) c₁
  rw [hdrain] at hsent hindex
  obtain ⟨tunnel, ht⟩ : ∃ tunnel, lookup c.slots conns 0 = some tunnel := by
    cases ht : lookup c.slots conns 0 with
    | some tunnel => exact ⟨tunnel, rfl⟩
    | none =>
      rw [recvFromTunnel, ht] at hrecv
      cases hrecv
  obtain ⟨tunnel₁, ht₁, -⟩ := hreceipt.lookup ht
  obtain ⟨tunnel₂, ht₂, -⟩ := hsent.lookup hready₁.nodup ht₁
  exact ⟨hsent.map_ref ▸ hready₁.nodup, hsent.entriesAt hready₁.entries,
    hindex.trans hreceipt.currentIndex, tunnel₂, ht₂⟩

/-- In a transfer that gets past the commands there is no room for connection `k`. -/
def Refuses (env : PumpEnv) (conns : Conns) (c : Controller) (k : ℕ) : Prop :=
  ∃ e s, AtConnections env conns c e ∧
    (s, false) ∈ encodeCalls conns e.pump.currentIndex (List.range (maxConnections - 1)) e ∧
      s.conn.id = k

/-- **The refused connection.** A transfer finds no room for connection `k`. The next transfer that
gets past the commands tries `k` before any other connection with unread input exactly if there is
no other such connection. -/
theorem refused_first_iff (hready : PumpReady conns c) (hrefuses : Refuses env conns c k)
    (hc : pumpTransfer (onCommand env.connect) env conns c = .ok c') (hready₂ : PumpReady conns₂ c₂)
    (hindex : c₂.pump.currentIndex = c'.pump.currentIndex) (h₂ : AtConnections env₂ conns₂ c₂ e₂)
    (hpending : pendingAt conns₂ e₂ k = some s) :
    FirstTried conns₂ e₂ k ↔
      ∀ j, 1 ≤ j → j ≤ 255 → (pendingAt conns₂ e₂ j).isSome = true → j = k := by
  obtain ⟨e, u, h, hu, hk⟩ := hrefuses
  obtain ⟨hnd, hentries, -, -⟩ := h.entry hready
  obtain ⟨hsaved, hpos, hle⟩ := currentIndex_of_refused _ _ hnd hentries hu
  obtain rfl := Except.ok.inj (h.pumpTransfer.symm.trans hc)
  obtain ⟨hnd₂, hentries₂, hindex₂, tunnel, ht⟩ := h₂.entry hready₂
  have hnow : e₂.pump.currentIndex = k := by
    rw [hindex₂, hindex]
    omega
  rw [firstTried_iff_find hnd₂ hentries₂ ht, hnow]
  exact find_visitOrder_iff (by omega) (by omega) (by rw [hpending]; rfl)

/-! ### Samples -/

/-- One update that gets to the connections: the state at the entry of the pump and the array, the
state at the connections, and the state after the update. -/
def transferAt (env : PollEnv) (c : Controller) :
    Option (Controller × Conns × Controller × Controller) :=
  (pumpEntry env c).bind fun r => (toConnections samplePump r.2 r.1).map fun e =>
    (r.1, r.2, e, encodeConnections r.2 e.pump.currentIndex (List.range (maxConnections - 1)) e)

theorem of_transferAt {bufSize : ℕ+} {accepting : Bool} {env : PollEnv}
    {c₀ : Controller} (hreach : Reach bufSize accepting c₀)
    (h : transferAt env c₀ = some (c, conns, e, c')) :
    PumpReady conns c ∧ AtConnections samplePump conns c e ∧
      pumpTransfer (onCommand samplePump.connect) samplePump conns c = .ok c' ∧
      Reach bufSize accepting c' := by
  obtain ⟨⟨c₁, conns₁⟩, hentry, hrest⟩ := Option.bind_eq_some_iff.mp h
  obtain ⟨e₁, hat, heq⟩ := Option.map_eq_some_iff.mp hrest
  simp only [Prod.mk.injEq] at heq
  obtain ⟨rfl, rfl, rfl, rfl⟩ := heq
  have hat : AtConnections samplePump conns₁ c₁ e₁ := hat
  exact ⟨hreach.pumpReady hentry, hat, hat.pumpTransfer,
    .update ⟨env, samplePump⟩ hreach (update_of_pumpEntry hentry hat.pumpTransfer)⟩

/-- The calls of `encode` in an update: the connection, whether it was refused, and the number of
its unread bytes. -/
def callsAt (r : Controller × Conns × Controller × Controller) : List (ℤ × Bool × ℕ) :=
  (encodeCalls r.2.1 r.2.2.1.pump.currentIndex (List.range (maxConnections - 1)) r.2.2.1).map
    fun call => (call.1.conn.id, !call.2, call.1.conn.inBuf.length)

/-- Clients with buffers of one byte have come, and each has sent a byte; the tunnel has taken no
byte of it. -/
def backlogged (arrivals : List PollEnv) : Option Controller :=
  updates ((arrivals ++ [clientReads [1], quietPoll]).map fun env => ⟨env, samplePump⟩)
    (startController sampleStart tinyBufSize true)

/-- An update in which the clients send another byte, and one in which the tunnel takes ten. -/
def twoTransfers (arrivals : List PollEnv) :
    Option ((Controller × Conns × Controller × Controller) ×
      (Controller × Conns × Controller × Controller)) :=
  (backlogged arrivals).bind fun c => (transferAt (clientReads [2]) c).bind fun r =>
    (transferAt (tunnelTakes 10 []) r.2.2.2).map fun r₂ => (r, r₂)

theorem of_twoTransfers {arrivals : List PollEnv} {r : Controller × Conns × Controller × Controller}
    (h : twoTransfers arrivals = some (r, c₂, conns₂, e₂, c')) :
    PumpReady r.2.1 r.1 ∧ AtConnections samplePump r.2.1 r.1 r.2.2.1 ∧
      pumpTransfer (onCommand samplePump.connect) samplePump r.2.1 r.1 = .ok r.2.2.2 ∧
      PumpReady conns₂ c₂ ∧ AtConnections samplePump conns₂ c₂ e₂ := by
  obtain ⟨c₀, hc₀, hrest⟩ := Option.bind_eq_some_iff.mp h
  obtain ⟨r', hfirst, hsecond⟩ := Option.bind_eq_some_iff.mp hrest
  obtain ⟨r₂, hr₂, heq⟩ := Option.map_eq_some_iff.mp hsecond
  obtain ⟨rfl, rfl⟩ := Prod.mk.inj heq
  obtain ⟨hready, hat, htransfer, hreach⟩ := of_transferAt
    (reach_updates (.start sampleStart) hc₀) hfirst
  obtain ⟨hready₂, hat₂, -, -⟩ := of_transferAt hreach hr₂
  exact ⟨hready, hat, htransfer, hready₂, hat₂⟩

theorem refuses_of_mem_callsAt {r : Controller × Conns × Controller × Controller} {n : ℕ}
    (h : AtConnections samplePump r.2.1 r.1 r.2.2.1) (hcall : ((k : ℤ), true, n) ∈ callsAt r) :
    Refuses samplePump r.2.1 r.1 k := by
  obtain ⟨⟨s, fits⟩, hmem, heq⟩ := List.mem_map.mp hcall
  simp only [Prod.mk.injEq, Bool.not_eq_true'] at heq
  obtain ⟨hid, rfl, -⟩ := heq
  exact ⟨_, s, h, hmem, hid⟩

/-- The ids of the connections with unread input. -/
def pendingIds (conns : Conns) (c : Controller) : List ℕ :=
  (List.range' 1 255).filter fun j => (pendingAt conns c j).isSome

theorem mem_pendingIds {j : ℕ} :
    j ∈ pendingIds conns c ↔ (1 ≤ j ∧ j ≤ 255) ∧ (pendingAt conns c j).isSome = true := by
  rw [pendingIds, List.mem_filter, List.mem_range'_1]
  exact and_congr_left' (and_congr_right' (by omega))

/-- The only client is refused, and is tried first. -/
theorem refused_first_oneClient : ∃ c₂ conns₂ e₂ c', ∃ r,
    twoTransfers [clientComes 7, tunnelReads [0x7E, 0, 5, 1, 0x7E]] =
      some (r, c₂, conns₂, e₂, c') ∧ Refuses samplePump r.2.1 r.1 1 ∧ FirstTried conns₂ e₂ 1 := by
  have hrun : (twoTransfers [clientComes 7, tunnelReads [0x7E, 0, 5, 1, 0x7E]]).map (fun r =>
      (callsAt r.1, r.1.2.2.2.pump.currentIndex, r.2.1.pump.currentIndex,
        pendingIds r.2.2.1 r.2.2.2.1)) = some ([(1, true, 1)], 1, 1, [1]) := by decide +kernel
  obtain ⟨⟨r, c₂, conns₂, e₂, c'⟩, htransfers, hrun⟩ := Option.map_eq_some_iff.mp hrun
  simp only [Prod.mk.injEq] at hrun
  obtain ⟨hcalls, hsaved, hindex, hpending⟩ := hrun
  obtain ⟨hready, hat, htransfer, hready₂, hat₂⟩ := of_twoTransfers htransfers
  have hrefuses : Refuses samplePump r.2.1 r.1 1 :=
    refuses_of_mem_callsAt hat (hcalls ▸ List.mem_singleton_self _)
  have hone : 1 ∈ pendingIds conns₂ e₂ := hpending ▸ List.mem_singleton_self 1
  obtain ⟨s, hs⟩ := Option.isSome_iff_exists.mp (mem_pendingIds.mp hone).2
  refine ⟨c₂, conns₂, e₂, c', r, htransfers, hrefuses, ?_⟩
  refine (refused_first_iff hready hrefuses htransfer hready₂ (hindex.trans hsaved.symm)
    hat₂ hs).mpr
    fun j hj hj' hsome => ?_
  exact List.mem_singleton.mp (hpending ▸ mem_pendingIds.mpr ⟨⟨hj, hj'⟩, hsome⟩)

/-- The first of two clients is refused, and is tried last. -/
theorem not_refused_first_twoClients : ∃ c₂ conns₂ e₂ c', ∃ r,
    twoTransfers [clientComes 7, clientComes 8, tunnelTakes 10 [0x7E, 0, 5, 1, 0x7E],
      tunnelReads [0x7E, 0, 5, 2, 0x7E]] = some (r, c₂, conns₂, e₂, c') ∧
      Refuses samplePump r.2.1 r.1 1 ∧ (pendingAt conns₂ e₂ 1).isSome = true ∧
      ¬ FirstTried conns₂ e₂ 1 := by
  have hrun : (twoTransfers [clientComes 7, clientComes 8, tunnelTakes 10 [0x7E, 0, 5, 1, 0x7E],
      tunnelReads [0x7E, 0, 5, 2, 0x7E]]).map (fun r => (callsAt r.1, pendingIds r.2.2.1 r.2.2.2.1,
        (visitOrder r.2.2.2.1.pump.currentIndex).find? fun j =>
          (pendingAt r.2.2.1 r.2.2.2.1 j).isSome)) = some ([(1, true, 1)], [1, 2], some 2) := by
    decide +kernel
  obtain ⟨⟨r, c₂, conns₂, e₂, c'⟩, htransfers, hrun⟩ := Option.map_eq_some_iff.mp hrun
  simp only [Prod.mk.injEq] at hrun
  obtain ⟨hcalls, hpending, hfirst⟩ := hrun
  obtain ⟨-, hat, -, hready₂, hat₂⟩ := of_twoTransfers htransfers
  obtain ⟨hnd, hentries, -, tunnel, ht⟩ := hat₂.entry hready₂
  have hone : 1 ∈ pendingIds conns₂ e₂ := hpending ▸ List.mem_cons_self
  refine ⟨c₂, conns₂, e₂, c', r, htransfers,
    refuses_of_mem_callsAt hat (hcalls ▸ List.mem_singleton_self _), (mem_pendingIds.mp hone).2, ?_⟩
  rw [firstTried_iff_find hnd hentries ht, hfirst]
  decide

end OsTasks.PortForwarding
