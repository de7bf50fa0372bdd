import Mathlib.Data.List.Forall2
import Mathlib.Data.List.ReduceOption
import OsTasks.Library.Compact
import OsTasks.Proxy.Proxied

/-!
# The slot table as a list of objects

The parallel arrays, the heap and the trace of the proxy show a list with an entry for each slot:
an object (`Proxied`) where the pointer is one to a client, and nothing where it is null. Every
operation on slots is an operation on the list. A round serves every object on its own, forgets the
finished ones, and appends a new one if a connection has been accepted.

## Main definitions

* `Row`, `State.row`, `State.table`: the slots as they lie in the arrays.
* `liveRefs`: the clients that have connected and not been disconnected, in order.
* `Shows`: the state shows a list of objects.
* `Proxied.survivor`: what the transfer loop leaves of an object.

## Main results

* `table_shrinkSlots`: `shrink_slots` keeps the slots with a client, in order.
* `Shows.round`: a round never dereferences a bad pointer, and what it does to the list.
-/

namespace OsTasks.Proxy

open PortForwarding (Pollfd PollMask pollRevents)

/-! ### Slots in the arrays -/

/-- A slot as it lies in the arrays. -/
structure Row where
  client : Option ℕ
  src : Pollfd
  dst : Pollfd

def State.row (s : State) (slot : ℕ) : Row :=
  ⟨s.clients slot, s.fds (srcIndex slot), s.fds (dstIndex slot)⟩

/-- The slots in use. -/
def State.table (s : State) : List Row := (List.range s.clientsCount).map s.row

theorem srcIndex_ne_dstIndex (i j : ℕ) : srcIndex i ≠ dstIndex j := by
  unfold srcIndex dstIndex
  omega

theorem srcIndex_ne {i j : ℕ} (h : i ≠ j) : srcIndex i ≠ srcIndex j := by
  unfold srcIndex
  omega

theorem dstIndex_ne {i j : ℕ} (h : i ≠ j) : dstIndex i ≠ dstIndex j := by
  unfold dstIndex
  omega

/-- Writing the two entries of a slot in `fds` changes no other slot. -/
theorem fds_update_of_ne (fds : ℕ → Pollfd) {i j : ℕ} (h : i ≠ j) (p q : Pollfd) :
    Function.update (Function.update fds (srcIndex j) p) (dstIndex j) q (srcIndex i) =
        fds (srcIndex i) ∧
      Function.update (Function.update fds (srcIndex j) p) (dstIndex j) q (dstIndex i) =
        fds (dstIndex i) := by
  constructor
  · rw [Function.update_of_ne (srcIndex_ne_dstIndex i j), Function.update_of_ne (srcIndex_ne h)]
  · rw [Function.update_of_ne (dstIndex_ne h),
      Function.update_of_ne (srcIndex_ne_dstIndex j i).symm]

/-- Writing the two entries of a slot in `fds`. -/
theorem fds_update_self (fds : ℕ → Pollfd) (i : ℕ) (p q : Pollfd) :
    Function.update (Function.update fds (srcIndex i) p) (dstIndex i) q (srcIndex i) = p ∧
      Function.update (Function.update fds (srcIndex i) p) (dstIndex i) q (dstIndex i) = q := by
  constructor
  · rw [Function.update_of_ne (srcIndex_ne_dstIndex i i), Function.update_self]
  · rw [Function.update_self]

theorem fds_copySlot {indFrom indTo : ℕ} (h : indTo ≠ indFrom) (s : State) :
    (copySlot indFrom indTo s).fds =
      Function.update (Function.update s.fds (srcIndex indTo) (s.fds (srcIndex indFrom)))
        (dstIndex indTo) (s.fds (dstIndex indFrom)) := by
  rw [copySlot, if_neg h]
  dsimp only
  rw [Function.update_of_ne (srcIndex_ne_dstIndex indTo indFrom).symm]

theorem clients_copySlot {indFrom indTo : ℕ} (h : indTo ≠ indFrom) (s : State) :
    (copySlot indFrom indTo s).clients = Function.update s.clients indTo (s.clients indFrom) := by
  rw [copySlot, if_neg h]

/-- The rows after the two entries of a slot have been written. -/
theorem row_update {s s' : State} {i : ℕ} {p q : Pollfd} (hclients : s'.clients = s.clients)
    (hfds : s'.fds = Function.update (Function.update s.fds (srcIndex i) p) (dstIndex i) q) :
    s'.row = Function.update s.row i ⟨s.clients i, p, q⟩ := by
  ext1 j
  rw [State.row, hclients, hfds]
  by_cases hj : j = i
  · subst hj
    obtain ⟨hsrc, hdst⟩ := fds_update_self s.fds j p q
    rw [hsrc, hdst, Function.update_self]
  · obtain ⟨hsrc, hdst⟩ := fds_update_of_ne s.fds hj p q
    rw [hsrc, hdst, Function.update_of_ne hj, State.row]

theorem row_copySlot (indFrom indTo : ℕ) (s : State) :
    (copySlot indFrom indTo s).row = Function.update s.row indTo (s.row indFrom) := by
  by_cases heq : indTo = indFrom
  · rw [copySlot, if_pos heq, heq, Function.update_eq_self]
  · ext1 i
    rw [State.row, fds_copySlot heq, clients_copySlot heq]
    by_cases hi : i = indTo
    · subst hi
      obtain ⟨hsrc, hdst⟩ :=
        fds_update_self s.fds i (s.fds (srcIndex indFrom)) (s.fds (dstIndex indFrom))
      rw [hsrc, hdst, Function.update_self, Function.update_self, State.row]
    · obtain ⟨hsrc, hdst⟩ :=
        fds_update_of_ne s.fds hi (s.fds (srcIndex indFrom)) (s.fds (dstIndex indFrom))
      rw [hsrc, hdst, Function.update_of_ne hi, Function.update_of_ne hi, State.row]

/-- The loop of `shrink_slots` is a compaction of the slots. -/
theorem shrinkLoop_eq (n : ℕ) {j i : ℕ} (s : State) :
    (shrinkLoop n j i s).1 =
        (compactLoop (fun row : Row => row.client.isSome) n j i s.row).1 ∧
      (shrinkLoop n j i s).2.row =
        (compactLoop (fun row : Row => row.client.isSome) n j i s.row).2 := by
  induction n generalizing j i s with
  | zero => exact ⟨rfl, rfl⟩
  | succ n ih =>
    by_cases hkeep : (s.clients j).isSome
    · have hrow : (s.row j).client.isSome := hkeep
      rw [shrinkLoop, compactLoop, if_pos hkeep, if_pos hrow, ← row_copySlot]
      exact ih (copySlot j i s)
    · have hrow : ¬ (s.row j).client.isSome := hkeep
      rw [shrinkLoop, compactLoop, if_neg hkeep, if_neg hrow]
      exact ih s

/-- `shrink_slots` touches the arrays only. -/
theorem shrinkLoop_frame (n : ℕ) {j i : ℕ} (s : State) :
    (shrinkLoop n j i s).2.heap = s.heap ∧ (shrinkLoop n j i s).2.nextRef = s.nextRef ∧
      (shrinkLoop n j i s).2.trace = s.trace := by
  induction n generalizing j i s with
  | zero => exact ⟨rfl, rfl, rfl⟩
  | succ n ih =>
    rw [shrinkLoop]
    split_ifs
    · obtain ⟨hheap, hnext, htrace⟩ := ih (j := j + 1) (i := i + 1) (copySlot j i s)
      rw [hheap, hnext, htrace]
      unfold copySlot
      split_ifs <;> exact ⟨rfl, rfl, rfl⟩
    · exact ih s

/-- **`shrink_slots`.** It keeps the slots with a client, in order. -/
theorem table_shrinkSlots (s : State) :
    (shrinkSlots s).table = s.table.filter fun row => row.client.isSome := by
  obtain ⟨hcount, hrow⟩ := shrinkLoop_eq s.clientsCount (j := 0) (i := 0) s
  have hcompact := map_compactLoop (fun row : Row => row.client.isSome) s.clientsCount
    (Nat.le_refl 0) s.row
  rw [← hcount, ← hrow, List.range_zero, List.map_nil, List.nil_append,
    ← List.range_eq_range'] at hcompact
  exact hcompact

/-! ### Objects in the slots -/

/-- The clients of a trace that have connected and not been disconnected, in order. -/
def liveRefs : List Event → List ℕ
  | [] => []
  | .connected ref _ _ :: past => liveRefs past ++ [ref]
  | .disconnected ref _ _ :: past => (liveRefs past).filter (· ≠ ref)
  | .call .. :: past | .closeUnused _ :: past => liveRefs past

/-- A row holds an object, or nothing. -/
def Holds (s : State) (row : Row) : Option Proxied → Prop
  | none => row.client = none
  | some o =>
    row = ⟨some o.ref, o.src, o.dst⟩ ∧ s.heap o.ref = some o.client ∧ about o.ref s.trace = o.log

/-- The addresses of the clients in a list of slots. -/
def refs (l : List (Option Proxied)) : List (Option ℕ) := l.map (Option.map Proxied.ref)

/-- The state shows a list of objects. Addresses that have not been used have no events, and those
that are not in the table any more have the events of a client that has been disconnected. -/
structure Shows (s : State) (l : List (Option Proxied)) : Prop where
  count : s.clientsCount = l.length
  bound : l.length ≤ maxClients
  slot : ∀ i x, l[i]? = some x → Holds s (s.row i) x
  order : (refs l).reduceOption = liveRefs s.trace
  nodup : (refs l).reduceOption.Nodup
  allocated : ∀ o, some o ∈ l → o.ref < s.nextRef
  fresh : ∀ ref, s.nextRef ≤ ref → about ref s.trace = []
  gone : ∀ ref < s.nextRef, some ref ∉ refs l → Ended (about ref s.trace)

/-- What the transfer loop leaves of an object. -/
def Proxied.survivor (env : SocketEnv) (o : Proxied) : Option Proxied :=
  if (o.serve env).finished then none else some (o.serve env)

/-- An address occurs in one slot at most. -/
theorem eq_of_getElem?_reduceOption {α : Type*} {l : List (Option α)} (h : l.reduceOption.Nodup)
    {i j : ℕ} {x : α} (hi : l[i]? = some (some x)) (hj : l[j]? = some (some x)) : i = j := by
  induction l generalizing i j with
  | nil => simp at hi
  | cons a l ih =>
    have hmem : ∀ {k : ℕ}, l[k]? = some (some x) → x ∈ l.reduceOption := fun hk =>
      List.reduceOption_mem_iff.mpr (List.mem_of_getElem? hk)
    cases i with
    | zero =>
      cases j with
      | zero => rfl
      | succ j =>
        obtain rfl : a = some x := by simpa using hi
        rw [List.reduceOption_cons_of_some, List.nodup_cons] at h
        exact absurd (hmem (by simpa using hj)) h.1
    | succ i =>
      cases j with
      | zero =>
        obtain rfl : a = some x := by simpa using hj
        rw [List.reduceOption_cons_of_some, List.nodup_cons] at h
        exact absurd (hmem (by simpa using hi)) h.1
      | succ j =>
        have htail : l.reduceOption.Nodup := by
          cases a with
          | none => exact h
          | some y =>
            rw [List.reduceOption_cons_of_some] at h
            exact h.of_cons
        exact congrArg (· + 1) (ih htail (by simpa using hi) (by simpa using hj))

/-- Clearing the slot of an address removes the address. -/
theorem reduceOption_set_none {l : List (Option ℕ)} (h : l.reduceOption.Nodup) {i x : ℕ}
    (hi : l[i]? = some (some x)) :
    (l.set i none).reduceOption = l.reduceOption.filter (· ≠ x) := by
  induction l generalizing i with
  | nil => simp at hi
  | cons a l ih =>
    cases i with
    | zero =>
      obtain rfl : a = some x := by simpa using hi
      rw [List.reduceOption_cons_of_some, List.nodup_cons] at h
      rw [List.set_cons_zero, List.reduceOption_cons_of_none, List.reduceOption_cons_of_some,
        List.filter_cons_of_neg (by simp), List.filter_eq_self.mpr]
      exact fun y hy => decide_eq_true fun heq => h.1 (heq ▸ hy)
    | succ i =>
      rw [List.getElem?_cons_succ] at hi
      rw [List.set_cons_succ]
      cases a with
      | none => exact ih h hi
      | some y =>
        rw [List.reduceOption_cons_of_some, List.nodup_cons] at h
        have hne : y ≠ x := fun heq =>
          h.1 (heq ▸ List.reduceOption_mem_iff.mpr (List.mem_of_getElem? hi))
        rw [List.reduceOption_cons_of_some, List.reduceOption_cons_of_some, ih h.2 hi,
          List.filter_cons_of_pos (by simpa using hne)]

/-! ### Operations on slots -/

section Operations

variable {s s' : State} {l : List (Option Proxied)} {i : ℕ} {o o' : Proxied}

theorem getElem?_refs (hi : l[i]? = some (some o)) : (refs l)[i]? = some (some o.ref) := by
  rw [refs, List.getElem?_map, hi]
  rfl

theorem Shows.eq_of_ref (h : Shows s l) {j : ℕ} (hi : l[i]? = some (some o))
    (hj : l[j]? = some (some o')) (href : o'.ref = o.ref) : i = j :=
  eq_of_getElem?_reduceOption h.nodup (getElem?_refs hi) (href ▸ getElem?_refs hj)

theorem Shows.mem (h : Shows s l) (hi : l[i]? = some (some o)) : o.ref < s.nextRef :=
  h.allocated o (List.mem_of_getElem? hi)

/-- A row is not affected by what happens to other clients. -/
theorem Holds.frame {row : Row} {x : Option Proxied} (h : Holds s row x)
    (hother : ∀ o, x = some o →
      s'.heap o.ref = s.heap o.ref ∧ about o.ref s'.trace = about o.ref s.trace) :
    Holds s' row x := by
  cases x with
  | none => exact h
  | some o =>
    obtain ⟨hheap, hlog⟩ := hother o rfl
    exact ⟨h.1, hheap.trans h.2.1, hlog.trans h.2.2⟩

theorem liveRefs_calls {calls : List Event} (hcalls : ∀ e ∈ calls, ∃ ref dir c, e = .call ref dir c)
    (trace : List Event) : liveRefs (calls ++ trace) = liveRefs trace := by
  induction calls with
  | nil => rfl
  | cons e calls ih =>
    obtain ⟨ref, dir, c, rfl⟩ := hcalls e List.mem_cons_self
    exact ih fun e' he' => hcalls e' (List.mem_cons_of_mem _ he')

theorem about_calls_of_ne {ref ref' : ℕ} (hne : ref' ≠ ref) {calls : List Event}
    (hcalls : ∀ e ∈ calls, e.ref? = some ref) (trace : List Event) :
    about ref' (calls ++ trace) = about ref' trace := by
  rw [about_append, about_of_forall_ne, List.nil_append]
  intro e he heq
  exact hne (Option.some.inj (heq.symm.trans (hcalls e he)))

/-- Serving a client changes its slot only. -/
theorem Shows.update (h : Shows s l) (hi : l[i]? = some (some o)) (href : o'.ref = o.ref)
    {dir : Dir} {calls : List IoCall} (hcount : s'.clientsCount = s.clientsCount)
    (hnext : s'.nextRef = s.nextRef)
    (hheap : s'.heap = Function.update s.heap o.ref (some o'.client))
    (hclients : s'.clients = s.clients)
    (hfds : s'.fds =
      Function.update (Function.update s.fds (srcIndex i) o'.src) (dstIndex i) o'.dst)
    (htrace : s'.trace = (calls.map (Event.call o.ref dir)).reverse ++ s.trace)
    (hlog : o'.log = (calls.map (Event.call o.ref dir)).reverse ++ o.log) :
    Shows s' (l.set i (some o')) := by
  have hrow : s'.row = Function.update s.row i ⟨some o'.ref, o'.src, o'.dst⟩ := by
    rw [row_update hclients hfds, href, (Row.mk.inj (h.slot i _ hi).1).1]
  set events := (calls.map (Event.call o.ref dir)).reverse with hevents
  have hcalls : ∀ e ∈ events, ∃ c, e = .call o.ref dir c := fun e he => by
    rw [hevents, List.mem_reverse, List.mem_map] at he
    obtain ⟨c, -, rfl⟩ := he
    exact ⟨c, rfl⟩
  have habout : ∀ e ∈ events, e.ref? = some o.ref := fun e he => by
    obtain ⟨c, rfl⟩ := hcalls e he
    rfl
  have hother : ∀ ref ≠ o.ref, about ref s'.trace = about ref s.trace := fun ref hne =>
    htrace ▸ about_calls_of_ne hne habout s.trace
  have hrefs : refs (l.set i (some o')) = refs l := by
    obtain ⟨hlt, heq⟩ := List.getElem?_eq_some_iff.mp (getElem?_refs hi)
    calc refs (l.set i (some o')) = (refs l).set i (some o'.ref) := List.map_set
      _ = (refs l).set i ((refs l)[i]) := by rw [heq, href]
      _ = refs l := List.set_getElem_self hlt
  refine ⟨?_, ?_, fun j x hj => ?_, ?_, ?_, fun o₁ ho₁ => ?_, fun ref hle =>
    ?_, fun ref hlt hnot => ?_⟩
  · rw [hcount, h.count, List.length_set]
  · rw [List.length_set]
    exact h.bound
  · by_cases hji : j = i
    · subst hji
      rw [List.getElem?_set_self (List.getElem?_eq_some_iff.mp hi).1] at hj
      obtain rfl := Option.some.inj hj
      refine ⟨by rw [hrow, Function.update_self], by rw [hheap, href, Function.update_self], ?_⟩
      rw [href, htrace, about_append, about_of_forall habout, hlog, (h.slot j _ hi).2.2]
    · rw [List.getElem?_set_ne (Ne.symm hji)] at hj
      rw [hrow, Function.update_of_ne hji]
      refine (h.slot j x hj).frame fun o₁ hx => ?_
      subst hx
      have hne : o₁.ref ≠ o.ref := fun heq => hji (h.eq_of_ref hi hj heq).symm
      exact ⟨by rw [hheap, Function.update_of_ne hne], hother _ hne⟩
  · rw [hrefs, h.order, htrace]
    refine (liveRefs_calls (fun e he => ?_) _).symm
    obtain ⟨c, hc⟩ := hcalls e he
    exact ⟨_, _, c, hc⟩
  · rw [hrefs]
    exact h.nodup
  · rw [hnext]
    rcases List.mem_or_eq_of_mem_set ho₁ with hmem | heq
    · exact h.allocated o₁ hmem
    · rw [Option.some.inj heq, href]
      exact h.mem hi
  · have hlt := h.mem hi
    rw [hnext] at hle
    rw [hother ref (by omega)]
    exact h.fresh ref hle
  · rw [hrefs] at hnot
    rw [hnext] at hlt
    have hne : ref ≠ o.ref := fun heq =>
      hnot (heq ▸ List.mem_of_getElem? (getElem?_refs hi))
    rw [hother ref hne]
    exact h.gone ref hlt hnot

/-- **One direction of a slot.** -/
theorem Shows.serveDirection (h : Shows s l) (hi : l[i]? = some (some o)) (env : SocketEnv)
    (dir : Dir) : ∃ s', serveDirection env dir i s = some s' ∧
      Shows s' (l.set i (some (o.direction env dir))) := by
  obtain ⟨hrow, hheap, hlog⟩ := h.slot i _ hi
  obtain ⟨hclient, hsrc, hdst⟩ := Row.mk.inj hrow
  have hin : s.fds (dir.inIndex i) = o.inFd dir := by cases dir <;> assumption
  have hout : s.fds (dir.outIndex i) = o.outFd dir := by cases dir <;> assumption
  unfold Proxy.serveDirection
  simp only [hclient, hheap, hin, hout, Option.bind_eq_bind, Option.bind_some]
  by_cases hactive : o.client.active dir
  · rw [if_pos hactive, Proxied.direction, if_pos hactive]
    refine ⟨_, rfl, h.update hi rfl rfl rfl rfl rfl ?_ rfl rfl⟩
    cases dir with
    | srcDst => rfl
    | dstSrc => exact Function.update_comm (srcIndex_ne_dstIndex i i).symm _ _ _
  · rw [if_neg hactive, Proxied.direction, if_neg hactive]
    refine ⟨s, rfl, ?_⟩
    obtain ⟨hlt, heq⟩ := List.getElem?_eq_some_iff.mp hi
    rwa [← heq, List.set_getElem_self]

/-- **`disconnect_client`.** -/
theorem Shows.disconnectClient (h : Shows s l) (hi : l[i]? = some (some o))
    (hended : Ended o.disconnectedLog) :
    ∃ s', disconnectClient i s = some s' ∧ Shows s' (l.set i none) := by
  obtain ⟨hrow, hheap, hlog⟩ := h.slot i _ hi
  obtain ⟨hclient, hsrc, hdst⟩ := Row.mk.inj hrow
  unfold Proxy.disconnectClient
  simp only [hclient, hheap, Option.bind_eq_bind, Option.bind_some]
  refine ⟨_, rfl, ?_⟩
  set s' : State :=
    { clearSlot i s with
      heap := Function.update (clearSlot i s).heap o.ref none
      trace := .disconnected o.ref o.client.srcFd o.client.dstFd :: (clearSlot i s).trace }
  have hother : ∀ ref ≠ o.ref, about ref s'.trace = about ref s.trace := fun ref hne =>
    List.filter_cons_of_neg (by simpa [Event.ref?] using Ne.symm hne)
  have hself : about o.ref s'.trace = o.disconnectedLog := by
    rw [Proxied.disconnectedLog, ← hlog]
    exact List.filter_cons_of_pos (by simp [Event.ref?])
  have hrefs : refs (l.set i none) = (refs l).set i none := List.map_set
  have hreduce := reduceOption_set_none h.nodup (getElem?_refs hi)
  refine ⟨?_, ?_, fun j x hj => ?_, ?_, ?_, fun o₁ ho₁ => ?_, fun ref hle =>
    ?_, fun ref hlt hnot => ?_⟩
  · exact h.count.trans List.length_set.symm
  · rw [List.length_set]
    exact h.bound
  · by_cases hji : j = i
    · subst hji
      rw [List.getElem?_set_self (List.getElem?_eq_some_iff.mp hi).1] at hj
      obtain rfl := Option.some.inj hj
      exact Function.update_self ..
    · rw [List.getElem?_set_ne (Ne.symm hji)] at hj
      have hsame : s'.row j = s.row j := by
        rw [State.row, State.row]
        congr 1
        exact Function.update_of_ne hji _ _
      rw [hsame]
      refine (h.slot j x hj).frame fun o₁ hx => ?_
      subst hx
      have hne : o₁.ref ≠ o.ref := fun heq => hji (h.eq_of_ref hi hj heq).symm
      exact ⟨Function.update_of_ne hne _ _, hother _ hne⟩
  · rw [hrefs, hreduce, h.order]
    rfl
  · rw [hrefs, hreduce]
    exact h.nodup.filter _
  · rcases List.mem_or_eq_of_mem_set ho₁ with hmem | heq
    · exact h.allocated o₁ hmem
    · exact absurd heq (Option.some_ne_none _)
  · have hlt := h.mem hi
    have hle' : s.nextRef ≤ ref := hle
    rw [hother ref (by omega)]
    exact h.fresh ref hle
  · by_cases heq : ref = o.ref
    · rw [heq, hself]
      exact hended
    · rw [hother ref heq]
      refine h.gone ref hlt fun hmem => hnot ?_
      rw [← List.reduceOption_mem_iff] at hmem ⊢
      rw [hrefs, hreduce]
      exact List.mem_filter.mpr ⟨hmem, decide_eq_true heq⟩

/-- **A slot of the transfer loop.** -/
theorem Shows.serveSlot (h : Shows s l) (hi : l[i]? = some (some o)) (env : SocketEnv)
    (hended : (o.serve env).finished = true → Ended (o.serve env).disconnectedLog) :
    ∃ s', serveSlot env i s = some s' ∧ Shows s' (l.set i (o.survivor env)) := by
  have hlt := (List.getElem?_eq_some_iff.mp hi).1
  obtain ⟨s₁, heq₁, h₁⟩ := h.serveDirection hi env .srcDst
  have hi₁ : (l.set i (some (o.direction env .srcDst)))[i]? =
      some (some (o.direction env .srcDst)) := List.getElem?_set_self hlt
  obtain ⟨s₂, heq₂, h₂⟩ := h₁.serveDirection hi₁ env .dstSrc
  rw [List.set_set] at h₂
  have hi₂ : (l.set i (some (o.serve env)))[i]? = some (some (o.serve env)) :=
    List.getElem?_set_self hlt
  obtain ⟨hrow, hheap, -⟩ := h₂.slot i _ hi₂
  have hclient := (Row.mk.inj hrow).1
  unfold Proxy.serveSlot Proxied.survivor
  simp only [heq₁, heq₂, hclient, hheap, Option.bind_eq_bind, Option.bind_some]
  change ∃ s', (if (o.serve env).finished then _ else _) = some s' ∧ _
  by_cases hfinished : (o.serve env).finished = true
  · rw [if_pos hfinished, if_pos hfinished]
    obtain ⟨s₃, heq₃, h₃⟩ := h₂.disconnectClient hi₂ (hended hfinished)
    rw [List.set_set] at h₃
    exact ⟨s₃, heq₃, h₃⟩
  · rw [if_neg hfinished, if_neg hfinished]
    exact ⟨s₂, rfl, h₂⟩

/-- **The transfer loop.** -/
theorem Shows.serveSlots (env : SocketEnv) {todo : List Proxied} {done rest : List (Option Proxied)}
    (h : Shows s (done ++ (todo.map some ++ rest)))
    (hended : ∀ o ∈ todo, (o.serve env).finished = true → Ended (o.serve env).disconnectedLog) :
    ∃ s', serveSlots env todo.length done.length s = some s' ∧
      Shows s' (done ++ (todo.map (Proxied.survivor env) ++ rest)) := by
  induction todo generalizing s done with
  | nil => exact ⟨s, rfl, h⟩
  | cons o todo ih =>
    have hi : (done ++ ((o :: todo).map some ++ rest))[done.length]? = some (some o) := by simp
    obtain ⟨s₁, heq₁, h₁⟩ := h.serveSlot hi env (hended o List.mem_cons_self)
    have hset : (done ++ ((o :: todo).map some ++ rest)).set done.length (o.survivor env) =
        (done ++ [o.survivor env]) ++ (todo.map some ++ rest) := by simp
    rw [hset] at h₁
    obtain ⟨s₂, heq₂, h₂⟩ := ih h₁ fun o' ho' => hended o' (List.mem_cons_of_mem _ ho')
    rw [List.length_append, List.length_singleton] at heq₂
    refine ⟨s₂, ?_, ?_⟩
    · rw [List.length_cons, Proxy.serveSlots, heq₁]
      exact heq₂
    · rw [List.append_assoc] at h₂
      exact h₂

theorem reduceOption_refs_filter (l : List (Option Proxied)) :
    (refs (l.filter Option.isSome)).reduceOption = (refs l).reduceOption := by
  induction l with
  | nil => rfl
  | cons x l ih =>
    cases x with
    | none => exact ih
    | some o => exact congrArg (o.ref :: ·) ih

/-- **`shrink_slots`.** -/
theorem Shows.shrinkSlots (h : Shows s l) : Shows (Proxy.shrinkSlots s)
    (l.filter Option.isSome) := by
  obtain ⟨hheap, hnext, htrace⟩ := shrinkLoop_frame s.clientsCount (j := 0) (i := 0) s
  have hrows : List.Forall₂ (Holds s) s.table l := by
    refine List.forall₂_iff_get.mpr ⟨by simp [State.table, h.count], fun i h₁ h₂ => ?_⟩
    have hslot := h.slot i _ (List.getElem?_eq_getElem h₂)
    simpa [State.table] using hslot
  have hkept : List.Forall₂ (Holds s) (Proxy.shrinkSlots s).table (l.filter Option.isSome) := by
    rw [table_shrinkSlots]
    refine List.rel_filter (fun row x hx => ?_) hrows
    cases x with
    | none => simp [show row.client = none from hx]
    | some o => simp [hx.1]
  have hlength := hkept.length_eq
  have hreduce := reduceOption_refs_filter l
  refine ⟨?_, ?_, fun i x hi => ?_, ?_, ?_, fun o ho => ?_, fun ref hle => ?_,
    fun ref hlt hnot => ?_⟩
  · simpa [State.table] using hlength
  · exact (List.length_filter_le _ _).trans h.bound
  · obtain ⟨hlt, rfl⟩ := List.getElem?_eq_some_iff.mp hi
    have hget := (List.forall₂_iff_get.mp hkept).2 i (hlength ▸ hlt) hlt
    have hrow : Holds s ((Proxy.shrinkSlots s).row i) (l.filter Option.isSome)[i] := by
      simpa [State.table] using hget
    exact hrow.frame fun o _ =>
      ⟨congrFun hheap o.ref, congrArg (about o.ref) htrace⟩
  · rw [hreduce, h.order]
    exact congrArg liveRefs htrace.symm
  · rw [hreduce]
    exact h.nodup
  · exact (h.allocated o (List.mem_filter.mp ho).1).trans_eq hnext.symm
  · rw [show (Proxy.shrinkSlots s).trace = s.trace from htrace]
    exact h.fresh ref (hnext ▸ hle)
  · rw [show (Proxy.shrinkSlots s).trace = s.trace from htrace]
    refine h.gone ref (hnext ▸ hlt) fun hmem => hnot ?_
    rw [← List.reduceOption_mem_iff] at hmem ⊢
    rwa [hreduce]

/-- What is not about a client and touches no slot. -/
theorem Shows.congr (h : Shows s l) (hcount : s'.clientsCount = s.clientsCount)
    (hrow : s'.row = s.row) (hheap : s'.heap = s.heap) (hnext : s'.nextRef = s.nextRef)
    (habout : ∀ ref, about ref s'.trace = about ref s.trace)
    (hlive : liveRefs s'.trace = liveRefs s.trace) : Shows s' l := by
  refine ⟨hcount.trans h.count, h.bound, fun i x hi => ?_, h.order.trans hlive.symm, h.nodup,
    fun o ho => (h.allocated o ho).trans_eq hnext.symm, fun ref hle => ?_,
    fun ref hlt hnot => ?_⟩
  · rw [hrow]
    exact (h.slot i x hi).frame fun o _ => ⟨congrFun hheap o.ref, habout o.ref⟩
  · rw [habout]
    exact h.fresh ref (hnext ▸ hle)
  · rw [habout]
    exact h.gone ref (hnext ▸ hlt) hnot

theorem Shows.closeIncomingSocket (h : Shows s l) (fd : ℕ) :
    Shows (closeIncomingSocket fd s) l :=
  h.congr rfl rfl rfl rfl (fun _ => rfl) rfl

theorem Shows.closeBothSockets (h : Shows s l) (env : AcceptEnv) (incoming outcoming : ℕ) :
    Shows (closeBothSockets env incoming outcoming s) l := by
  have hclosed : Shows { s with trace := .closeUnused outcoming :: s.trace } l :=
    h.closeIncomingSocket outcoming
  rw [Proxy.closeBothSockets]
  split_ifs
  · exact hclosed.closeIncomingSocket incoming
  · exact hclosed

/-- The object of the client that is added next. -/
def State.added (s : State) (mem : (ℕ → UInt8) × (ℕ → UInt8)) (srcFd dstFd : ℕ) : Proxied :=
  newProxied s.nextRef mem srcFd dstFd (s.fds (srcIndex s.clientsCount))
    (s.fds (dstIndex s.clientsCount))

/-- The rows after `add_slot`. -/
theorem row_addSlot (ref : ℕ) (client : Client) (s : State) :
    (addSlot ref client s).2.row = Function.update s.row s.clientsCount
      ⟨some ref, armIn client.srcFd (s.fds (srcIndex s.clientsCount)),
        armIn client.dstFd (s.fds (dstIndex s.clientsCount))⟩ := by
  ext1 i
  rw [addSlot, State.row]
  dsimp only
  rw [Function.update_of_ne (srcIndex_ne_dstIndex s.clientsCount s.clientsCount).symm]
  by_cases hi : i = s.clientsCount
  · subst hi
    obtain ⟨hsrc, hdst⟩ := fds_update_self s.fds s.clientsCount
      (armIn client.srcFd (s.fds (srcIndex s.clientsCount)))
      (armIn client.dstFd (s.fds (dstIndex s.clientsCount)))
    rw [hsrc, hdst, Function.update_self, Function.update_self]
  · obtain ⟨hsrc, hdst⟩ := fds_update_of_ne s.fds hi
      (armIn client.srcFd (s.fds (srcIndex s.clientsCount)))
      (armIn client.dstFd (s.fds (dstIndex s.clientsCount)))
    rw [hsrc, hdst, Function.update_of_ne hi, Function.update_of_ne hi, State.row]

/-- **`add_client`**, when there is a slot and memory. -/
theorem Shows.addClient (h : Shows s l) (hroom : canAddSlot s = true)
    (mem : (ℕ → UInt8) × (ℕ → UInt8)) (srcFd dstFd : ℕ) :
    Shows (addClient (some mem) srcFd dstFd s).2 (l ++ [some (s.added mem srcFd dstFd)]) := by
  unfold Proxy.addClient
  rw [hroom]
  let o := s.added mem srcFd dstFd
  let s₀ : State :=
    { s with
      heap := Function.update s.heap s.nextRef (some o.client)
      nextRef := s.nextRef + 1
      trace := .connected s.nextRef srcFd dstFd :: s.trace }
  change Shows (addSlot s.nextRef o.client s₀).2 (l ++ [some o])
  have hbound : s.clientsCount < maxClients := of_decide_eq_true hroom
  have hrow : (addSlot s.nextRef o.client s₀).2.row =
      Function.update s.row s.clientsCount ⟨some o.ref, o.src, o.dst⟩ := row_addSlot ..
  have hrefs : refs (l ++ [some o]) = refs l ++ [some s.nextRef] := List.map_append
  have hnew : s.nextRef ∉ (refs l).reduceOption := by
    rw [List.reduceOption_mem_iff, refs, List.mem_map]
    rintro ⟨x, hx, heq⟩
    obtain ⟨o₁, rfl, href⟩ := Option.map_eq_some_iff.mp heq
    exact absurd (h.allocated o₁ hx) (by omega)
  have hother : ∀ ref ≠ s.nextRef,
      about ref (.connected s.nextRef srcFd dstFd :: s.trace) = about ref s.trace :=
    fun ref hne => List.filter_cons_of_neg (by simpa [Event.ref?] using Ne.symm hne)
  refine ⟨?_, ?_, fun i x hi => ?_, ?_, ?_, fun o₁ ho₁ => ?_, fun ref hle =>
    ?_, fun ref hlt hnot => ?_⟩
  · rw [List.length_append, List.length_singleton, ← h.count]
    rfl
  · rw [List.length_append, List.length_singleton, ← h.count]
    exact hbound
  · rw [hrow]
    rcases Nat.lt_trichotomy i l.length with hlt | heq | hgt
    · rw [List.getElem?_append_left hlt] at hi
      rw [Function.update_of_ne (h.count ▸ hlt.ne)]
      refine (h.slot i x hi).frame fun o₁ hx => ?_
      have hold := h.allocated o₁ (List.mem_of_getElem? (hx ▸ hi))
      exact ⟨Function.update_of_ne hold.ne _ _, hother _ hold.ne⟩
    · subst heq
      rw [List.getElem?_concat_length] at hi
      obtain rfl := Option.some.inj hi
      refine ⟨by rw [h.count, Function.update_self], Function.update_self .., ?_⟩
      change about s.nextRef (.connected s.nextRef srcFd dstFd :: s.trace) = _
      rw [about, List.filter_cons_of_pos (by simp [Event.ref?]), ← about,
        h.fresh _ (Nat.le_refl _)]
      rfl
    · rw [List.getElem?_eq_none (by simpa using Nat.succ_le_of_lt hgt)] at hi
      exact absurd hi (Option.some_ne_none _).symm
  · rw [hrefs, List.reduceOption_append, h.order]
    rfl
  · rw [hrefs, List.reduceOption_append]
    exact List.nodup_append.mpr ⟨h.nodup, List.nodup_singleton _, fun a ha b hb heq =>
      hnew (List.mem_singleton.mp hb ▸ heq ▸ ha)⟩
  · change o₁.ref < s.nextRef + 1
    rcases List.mem_append.mp ho₁ with hmem | hmem
    · exact Nat.lt_succ_of_lt (h.allocated o₁ hmem)
    · rw [Option.some.inj (List.mem_singleton.mp hmem)]
      exact Nat.lt_succ_self _
  · have hle' : s.nextRef + 1 ≤ ref := hle
    exact (hother ref (by omega)).trans (h.fresh ref (by omega))
  · have hlt' : ref < s.nextRef + 1 := hlt
    rw [hrefs, List.mem_append, not_or] at hnot
    have hne : ref ≠ s.nextRef := fun heq => hnot.2 (heq ▸ List.mem_singleton_self _)
    have hold := h.gone ref (by omega) hnot.1
    rwa [← hother ref hne] at hold

/-- **`accept_connection`.** It adds a new client, or none. -/
theorem Shows.acceptConnection (h : Shows s l) (env : AcceptEnv) :
    ∃ new, (new = [] ∨ ∃ mem srcFd dstFd, new = [s.added mem srcFd dstFd]) ∧
      Shows (acceptConnection env s) (l ++ new.map some) := by
  have hnone : ∀ {s'}, Shows s' l →
      ∃ new, (new = [] ∨ ∃ mem srcFd dstFd, new = [s.added mem srcFd dstFd]) ∧
        Shows s' (l ++ new.map some) := fun h' => ⟨[], .inl rfl, by simpa using h'⟩
  rw [Proxy.acceptConnection]
  cases env.accept with
  | none => exact hnone h
  | some incoming =>
    dsimp only
    cases hroom : canAddSlot s with
    | false => exact hnone (h.closeIncomingSocket incoming)
    | true =>
      rw [if_neg (by decide)]
      cases env.socket with
      | none => exact hnone (h.closeIncomingSocket incoming)
      | some outcoming =>
        dsimp only
        cases env.connect with
        | false => exact hnone (h.closeBothSockets env incoming outcoming)
        | true =>
          rw [if_neg (by decide)]
          cases env.malloc with
          | none =>
            have hadd : Proxy.addClient none incoming outcoming s = (-1, s) := by
              rw [Proxy.addClient, hroom]
              rfl
            rw [hadd]
            exact hnone (h.closeBothSockets env incoming outcoming)
          | some mem =>
            have hslot : (Proxy.addClient (some mem) incoming outcoming s).1 ≠ -1 := by
              rw [Proxy.addClient, hroom]
              change ((s.clientsCount : ℕ) : ℤ) ≠ -1
              omega
            rw [if_neg hslot]
            exact ⟨_, .inr ⟨mem, incoming, outcoming, rfl⟩,
              h.addClient hroom mem incoming outcoming⟩

theorem Shows.beforePoll (h : Shows s l) : Shows (beforePoll s) l := by
  refine h.congr rfl ?_ rfl rfl (fun _ => rfl) rfl
  ext1 i
  have hsrc : srcIndex i ≠ 0 := by
    unfold srcIndex
    omega
  have hdst : dstIndex i ≠ 0 := by
    unfold dstIndex
    omega
  rw [State.row, State.row, Proxy.beforePoll]
  dsimp only
  rw [Function.update_of_ne hsrc, Function.update_of_ne hdst]

end Operations

/-! ### Rounds -/

section Rounds

variable {s s' : State} {objs : List Proxied}

/-- What `poll` does to a list of objects. -/
def polledAll (ready : ℕ → PollMask) (objs : List Proxied) : List Proxied :=
  objs.mapIdx fun i o => o.polled (ready (srcIndex i)) (ready (dstIndex i))

theorem Shows.poll (h : Shows s (objs.map some)) (ready : ℕ → PollMask) :
    Shows (poll ready s) ((polledAll ready objs).map some) := by
  have hlength : (polledAll ready objs).length = objs.length := List.length_mapIdx
  have hrefs : refs ((polledAll ready objs).map some) = refs (objs.map some) := by
    refine List.ext_getElem? fun i => ?_
    simp only [refs, polledAll, List.getElem?_map, List.getElem?_mapIdx]
    cases objs[i]? <;> rfl
  refine ⟨?_, ?_, fun i x hi => ?_, ?_, ?_, fun o ho => ?_, h.fresh, fun ref hlt hnot => ?_⟩
  · exact h.count.trans (by simp [hlength])
  · have hbound := h.bound
    simpa [hlength] using hbound
  · obtain ⟨o, ho, rfl⟩ : ∃ o, objs[i]? = some o ∧
        x = some (o.polled (ready (srcIndex i)) (ready (dstIndex i))) := by
      rw [List.getElem?_map, polledAll, List.getElem?_mapIdx] at hi
      cases ho : objs[i]? with
      | none => simp [ho] at hi
      | some o => exact ⟨o, rfl, by simpa [ho] using hi.symm⟩
    have hlt : i < s.clientsCount := by
      rw [h.count, List.length_map]
      exact (List.getElem?_eq_some_iff.mp ho).1
    obtain ⟨hrow, hheap, hlog⟩ := h.slot i (some o) (by simp [ho])
    obtain ⟨hclient, hsrc, hdst⟩ := Row.mk.inj hrow
    have hsrcLt : srcIndex i < 1 + 2 * s.clientsCount := by
      unfold srcIndex
      omega
    have hdstLt : dstIndex i < 1 + 2 * s.clientsCount := by
      unfold dstIndex
      omega
    refine ⟨?_, hheap, hlog⟩
    rw [State.row, Proxy.poll]
    dsimp only
    rw [if_pos hsrcLt, if_pos hdstLt, hclient, hsrc, hdst]
    rfl
  · rw [hrefs]
    exact h.order
  · rw [hrefs]
    exact h.nodup
  · obtain ⟨i, hi⟩ := List.mem_iff_getElem?.mp ho
    have hmem := List.mem_of_getElem? (hrefs ▸ getElem?_refs hi)
    obtain ⟨x, hx, heq⟩ := List.mem_map.mp hmem
    obtain ⟨o₁, rfl, href⟩ := Option.map_eq_some_iff.mp heq
    exact href ▸ h.allocated o₁ hx
  · rw [hrefs] at hnot
    exact h.gone ref hlt hnot

theorem mem_polledAll {ready : ℕ → PollMask} {o : Proxied} (h : o ∈ polledAll ready objs) :
    ∃ o₀ ∈ objs, ∃ src dst, o = o₀.polled src dst := by
  obtain ⟨i, hi, rfl⟩ := List.mem_mapIdx.mp h
  exact ⟨objs[i], List.getElem_mem hi, _, _, rfl⟩

/-- The objects after a round, before a new one is appended. -/
def survivors (env : RoundEnv) (objs : List Proxied) : List Proxied :=
  (polledAll env.ready objs).filterMap (Proxied.survivor env.sockets)

theorem life_survivors {env : RoundEnv} (h : ∀ o ∈ objs, Life o) :
    ∀ o ∈ survivors env objs, Life o := by
  intro o ho
  obtain ⟨o₁, ho₁, heq⟩ := List.mem_filterMap.mp ho
  obtain ⟨o₀, ho₀, src, dst, rfl⟩ := mem_polledAll ho₁
  rw [Proxied.survivor] at heq
  split_ifs at heq with hfinished
  rw [← Option.some.inj heq]
  exact (h o₀ ho₀).round src dst env.sockets (Bool.eq_false_of_not_eq_true hfinished)

theorem filter_isSome_survivor (env : SocketEnv) (todo new : List Proxied) :
    (todo.map (Proxied.survivor env) ++ new.map some).filter Option.isSome =
      (todo.filterMap (Proxied.survivor env) ++ new).map some := by
  rw [List.filter_append, List.map_append]
  congr 1
  · induction todo with
    | nil => rfl
    | cons o todo ih =>
      rw [List.map_cons, List.filterMap_cons]
      cases o.survivor env with
      | none => exact ih
      | some o' => exact congrArg (some o' :: ·) ih
  · exact List.filter_eq_self.mpr fun x hx => by
      obtain ⟨o, -, rfl⟩ := List.mem_map.mp hx
      rfl

/-- **A round.** It dereferences good pointers only. Every object is served on its own, the
finished ones are disconnected, the others keep their order, and a new one may come behind them. -/
theorem Shows.round (h : Shows s (objs.map some)) (hlife : ∀ o ∈ objs, Life o) (env : RoundEnv) :
    ∃ s' new, Proxy.round env s = some s' ∧
      (new = [] ∨ ∃ mem srcFd dstFd,
        new = [(Proxy.poll env.ready (Proxy.beforePoll s)).added mem srcFd dstFd]) ∧
      Shows s' ((survivors env objs ++ new).map some) := by
  have hpolled := h.beforePoll.poll env.ready
  obtain ⟨new, hnew, haccepted⟩ : ∃ new,
      (new = [] ∨ ∃ mem srcFd dstFd,
        new = [(Proxy.poll env.ready (Proxy.beforePoll s)).added mem srcFd dstFd]) ∧
      Shows (if ((Proxy.poll env.ready (Proxy.beforePoll s)).fds 0).revents.pollin then
          Proxy.acceptConnection env.accept (Proxy.poll env.ready (Proxy.beforePoll s))
        else Proxy.poll env.ready (Proxy.beforePoll s))
        ((polledAll env.ready objs).map some ++ new.map some) := by
    split_ifs
    · exact hpolled.acceptConnection env.accept
    · exact ⟨[], .inl rfl, by simpa using hpolled⟩
  have hended : ∀ o ∈ polledAll env.ready objs, (o.serve env.sockets).finished = true →
      Ended (o.serve env.sockets).disconnectedLog := by
    intro o ho hfinished
    obtain ⟨o₀, ho₀, src, dst, rfl⟩ := mem_polledAll ho
    exact ⟨o₀, hlife o₀ ho₀, src, dst, env.sockets, hfinished, rfl⟩
  rw [← List.nil_append (_ ++ _)] at haccepted
  obtain ⟨s', hserve, hserved⟩ := Shows.serveSlots env.sockets haccepted hended
  have hcount : (Proxy.poll env.ready (Proxy.beforePoll s)).clientsCount =
      (polledAll env.ready objs).length := hpolled.count.trans (List.length_map _)
  refine ⟨Proxy.shrinkSlots s', new, ?_, hnew, ?_⟩
  · rw [Proxy.round]
    rw [List.length_nil] at hserve
    rw [hcount, hserve]
    rfl
  · have hshrunk := hserved.shrinkSlots
    rwa [List.nil_append, filter_isSome_survivor] at hshrunk

theorem shows_start (listeningSocket : ℕ) : Shows (start listeningSocket) [] := by
  refine ⟨rfl, Nat.zero_le _, fun i x hi => ?_, rfl, List.nodup_nil, fun o ho => ?_,
    fun _ _ => rfl, fun ref hlt => absurd hlt (Nat.not_lt_zero ref)⟩
  · simp at hi
  · exact absurd ho List.not_mem_nil

theorem Life.added (s : State) (mem : (ℕ → UInt8) × (ℕ → UInt8)) (srcFd dstFd : ℕ) :
    Life (s.added mem srcFd dstFd) := Life.new ..

/-- **Every run.** Whenever the main loop comes around, the table is a list of clients that rounds
have made of new ones. -/
theorem Reach.shows (h : Reach s) : ∃ objs : List Proxied, Shows s (objs.map some) ∧ ∀ o ∈ objs,
    Life o := by
  induction h with
  | start listeningSocket =>
    exact ⟨[], shows_start listeningSocket, fun o ho => absurd ho List.not_mem_nil⟩
  | interrupted _ ih =>
    obtain ⟨objs, hshows, hlife⟩ := ih
    exact ⟨objs, hshows.beforePoll, hlife⟩
  | round _ env hs ih =>
    obtain ⟨objs, hshows, hlife⟩ := ih
    obtain ⟨s', new, heq, hnew, hshows'⟩ := hshows.round hlife env
    obtain rfl := Option.some.inj (hs.symm.trans heq)
    refine ⟨_, hshows', fun o ho => ?_⟩
    rcases List.mem_append.mp ho with ho | ho
    · exact life_survivors hlife o ho
    · rcases hnew with rfl | ⟨mem, srcFd, dstFd, rfl⟩
      · exact absurd ho List.not_mem_nil
      · rw [List.mem_singleton.mp ho]
        exact Life.added ..

end Rounds

end OsTasks.Proxy
