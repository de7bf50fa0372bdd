import Mathlib.Algebra.GroupWithZero.Nat
import Mathlib.Data.Int.Notation
import Mathlib.Data.List.Basic
import Mathlib.Tactic.SplitIfs

/-!
# Writing a whole buffer

`write_all` of the server and of the client calls `write` until as many bytes have been accepted as
the buffer has. It counts them, but offers the whole buffer in every call.

## Main definitions

* `writeLoop`, `Server.writeAll`, `Client.writeAll`: the loop of the source, with its calls.
* `WritesOnce`: the purpose of the function.
* `FirstWhole`: the first call that is not interrupted accepts all bytes.

## Main results

* `writesOnce_iff`: the function fulfils its purpose exactly in this case.
-/

namespace OsTasks.UnixSocket

/-! ### The loop -/

/-- The error numbers that the function distinguishes. -/
inductive Errno
  | eagain
  | eintr
  | other
  deriving DecidableEq

/-- What `write` returns: a number of bytes, or `-1`. -/
inductive WriteResult
  | taken (n : ℕ)
  | failed (e : Errno)
  deriving DecidableEq

/-- A call of `write`: where the offered bytes begin in the buffer, how many they are, and the
result, unless the call has not returned. -/
structure WriteCall where
  base : ℕ
  count : ℕ
  result : Option WriteResult
  deriving DecidableEq

/-- The calls of `write`, and the result of `write_all`, unless it has not returned. -/
structure Run where
  calls : List WriteCall
  ret : Option ℤ
  deriving DecidableEq

/-- One call more in front of the others. -/
def Run.cons (c : WriteCall) (run : Run) : Run := ⟨c :: run.calls, run.ret⟩

/-- The loop of `write_all`, when `write` answers as listed. -/
def writeLoop (len : ℕ) : List WriteResult → ℕ → Run
  | [], written => if written < len then ⟨[⟨0, len, none⟩], none⟩ else ⟨[], some 0⟩
  | .failed e :: results, written =>
    if written < len then
      if e = .eagain ∨ e = .eintr then
        (writeLoop len results written).cons ⟨0, len, some (.failed e)⟩
      else ⟨[⟨0, len, some (.failed e)⟩], some (-1)⟩
    else ⟨[], some 0⟩
  | .taken n :: results, written =>
    if written < len then (writeLoop len results (written + n)).cons ⟨0, len, some (.taken n)⟩
    else ⟨[], some 0⟩

/-- `write_all` of `server.c`. -/
def Server.writeAll (len : ℕ) (results : List WriteResult) : Run := writeLoop len results 0

/-- `write_all` of `client.c`. -/
def Client.writeAll (len : ℕ) (results : List WriteResult) : Run := writeLoop len results 0

/-! ### What the function is for -/

/-- The number of bytes that a call has accepted. -/
def WriteCall.accepted (c : WriteCall) : ℕ :=
  match c.result with
  | some (.taken n) => n
  | _ => 0

/-- The bytes that some calls have accepted, one after the other. -/
def acceptedBytes (buf : List UInt8) (calls : List WriteCall) : List UInt8 :=
  calls.flatMap fun c => (buf.drop c.base).take c.accepted

/-- If the function returns `0`, the bytes of the buffer have been accepted in order; and no call
offers a byte that has been accepted already or is not in the buffer. -/
structure WritesOnce (buf : List UInt8) (len : ℕ) (run : Run) : Prop where
  whole : run.ret = some 0 → acceptedBytes buf run.calls = buf.take len
  inside : ∀ before c after, run.calls = before ++ c :: after →
    (before.map WriteCall.accepted).sum ≤ c.base ∧ c.base + c.count ≤ len

/-- After such a result the loop goes on as before. -/
def WriteResult.interrupted (res : WriteResult) : Bool :=
  res = .failed .eagain ∨ res = .failed .eintr

/-- The first call that is not interrupted accepts all bytes, if it accepts any. -/
def FirstWhole (len : ℕ) (results : List WriteResult) : Prop :=
  ∀ n, results.find? (fun res => !res.interrupted) = some (.taken n) → len ≤ n

theorem interrupted_failed (e : Errno) :
    (WriteResult.failed e).interrupted = true ↔ e = .eagain ∨ e = .eintr := by
  simp [WriteResult.interrupted]

theorem interrupted_taken (n : ℕ) : (WriteResult.taken n).interrupted = false := rfl

variable {buf : List UInt8} {len written : ℕ} {results : List WriteResult} {run : Run}
  {c : WriteCall}

/-- A call that offers the whole buffer and accepts nothing changes nothing. -/
theorem writesOnce_cons_iff (hbase : c.base + c.count ≤ len) (hnone : c.accepted = 0) :
    WritesOnce buf len (run.cons c) ↔ WritesOnce buf len run := by
  have hbytes : acceptedBytes buf (c :: run.calls) = acceptedBytes buf run.calls := by
    rw [acceptedBytes, List.flatMap_cons, hnone, List.take_zero, List.nil_append]
    rfl
  constructor
  · intro h
    refine ⟨fun hret => hbytes ▸ h.whole hret, fun before c' after hcalls => ?_⟩
    have hinside := h.inside (c :: before) c' after (congrArg (c :: ·) hcalls)
    rwa [List.map_cons, List.sum_cons, hnone, Nat.zero_add] at hinside
  · intro h
    refine ⟨fun hret => hbytes.trans (h.whole hret), fun before c' after hcalls => ?_⟩
    cases before with
    | nil =>
      obtain ⟨rfl, -⟩ := List.cons.inj hcalls
      exact ⟨Nat.zero_le _, hbase⟩
    | cons c'' before =>
      obtain ⟨rfl, hrest⟩ := List.cons.inj hcalls
      have hinside := h.inside before c' after hrest
      rwa [List.map_cons, List.sum_cons, hnone, Nat.zero_add]

/-- A run with one call, of the whole buffer. -/
theorem writesOnce_singleton {ret : Option ℤ} (hbase : c.base + c.count ≤ len)
    (hwhole : ret = some 0 → acceptedBytes buf [c] = buf.take len) :
    WritesOnce buf len ⟨[c], ret⟩ := by
  refine ⟨hwhole, fun before c' after hcalls => ?_⟩
  obtain ⟨rfl, rfl, rfl⟩ : before = [] ∧ c' = c ∧ after = [] := by
    cases before with
    | nil =>
      obtain ⟨rfl, rfl⟩ := List.cons.inj hcalls
      exact ⟨rfl, rfl, rfl⟩
    | cons c'' before => simp at hcalls
  exact ⟨Nat.zero_le _, hbase⟩

theorem writeLoop_of_le (hwritten : len ≤ written) (results : List WriteResult) :
    writeLoop len results written = ⟨[], some 0⟩ := by
  have hnot := Nat.not_lt.mpr hwritten
  match results with
  | [] => rw [writeLoop, if_neg hnot]
  | .failed e :: results => rw [writeLoop, if_neg hnot]
  | .taken n :: results => rw [writeLoop, if_neg hnot]

/-- As long as bytes are missing, the whole buffer is offered again. -/
theorem exists_call (hwritten : written < len) (results : List WriteResult) :
    ∃ (result : Option WriteResult) (calls : List WriteCall),
      (writeLoop len results written).calls = ⟨0, len, result⟩ :: calls := by
  match results with
  | [] => exact ⟨_, _, by rw [writeLoop, if_pos hwritten]⟩
  | .failed e :: results =>
    rw [writeLoop, if_pos hwritten]
    split_ifs
    · exact ⟨_, _, rfl⟩
    · exact ⟨_, _, rfl⟩
  | .taken n :: results =>
    rw [writeLoop, if_pos hwritten]
    exact ⟨_, _, rfl⟩

/-- **The loop.** It writes the buffer once exactly if the first call that is not interrupted does
not accept a part of it only. -/
theorem writesOnce_writeLoop_iff (hpos : 0 < len)
    (hresults : ∀ n, .taken n ∈ results → 0 < n ∧ n ≤ len) :
    WritesOnce buf len (writeLoop len results 0) ↔ FirstWhole len results := by
  induction results with
  | nil =>
    rw [writeLoop, if_pos hpos]
    refine iff_of_true (writesOnce_singleton (by simp) (by simp)) fun n hn => ?_
    exact absurd hn (by rintro ⟨⟩)
  | cons res results ih =>
    have hrest := ih fun n hn => hresults n (List.mem_cons_of_mem _ hn)
    cases res with
    | failed e =>
      rw [writeLoop, if_pos hpos]
      split_ifs with he
      · rw [writesOnce_cons_iff (by simp) rfl, hrest, FirstWhole, FirstWhole,
          List.find?_cons_of_neg (by simpa using (interrupted_failed e).mpr he)]
      · refine iff_of_true (writesOnce_singleton (by simp) (by simp)) fun n hn => ?_
        rw [List.find?_cons_of_pos (by simpa using mt (interrupted_failed e).mp he)] at hn
        exact absurd hn (by simp)
    | taken n =>
      rw [writeLoop, if_pos hpos, Nat.zero_add]
      have hfirst : FirstWhole len (.taken n :: results) ↔ len ≤ n := by
        rw [FirstWhole, List.find?_cons_of_pos (by simp [interrupted_taken])]
        exact ⟨fun h => h n rfl, fun h m hm => WriteResult.taken.inj (Option.some.inj hm) ▸ h⟩
      obtain ⟨hn, hle⟩ := hresults n List.mem_cons_self
      rw [hfirst]
      constructor
      · intro h
        by_contra hshort
        obtain ⟨result, calls, hcalls⟩ := exists_call (Nat.not_le.mp hshort) results
        obtain ⟨hinside, -⟩ :=
          h.inside [⟨0, len, some (.taken n)⟩] _ calls (congrArg (_ :: ·) hcalls)
        simp only [List.map_singleton, List.sum_singleton, WriteCall.accepted] at hinside
        omega
      · intro hwhole
        obtain rfl := Nat.le_antisymm hle hwhole
        rw [writeLoop_of_le (Nat.le_refl _)]
        exact writesOnce_singleton (by simp) fun _ => by simp [acceptedBytes, WriteCall.accepted]

/-- **Writing once.** When every accepted count is positive and at most what has been offered, both
copies of `write_all` write the buffer once exactly if the first call that is not interrupted does
not accept a part of it only. -/
theorem writesOnce_iff (buf : List UInt8) (len : ℕ) (results : List WriteResult)
    (hresults : ∀ n, .taken n ∈ results → 0 < n ∧ n ≤ len) :
    (WritesOnce buf len (Server.writeAll len results) ↔ FirstWhole len results) ∧
      (WritesOnce buf len (Client.writeAll len results) ↔ FirstWhole len results) := by
  have h : WritesOnce buf len (writeLoop len results 0) ↔ FirstWhole len results := by
    rcases Nat.eq_zero_or_pos len with rfl | hpos
    · rw [writeLoop_of_le (Nat.le_refl 0)]
      exact iff_of_true ⟨fun _ => rfl, fun before c after hcalls => by simp at hcalls⟩
        fun n _ => Nat.zero_le n
    · exact writesOnce_writeLoop_iff hpos hresults
  exact ⟨h, h⟩

theorem writesOnce_interrupted :
    WritesOnce [104, 105] 2 (Client.writeAll 2 [.failed .eintr, .taken 2]) := by
  have hfirst : FirstWhole 2 [.failed .eintr, .taken 2] := by
    intro n hn
    obtain rfl : 2 = n := WriteResult.taken.inj (Option.some.inj hn)
    exact Nat.le_refl 2
  refine (writesOnce_iff [104, 105] 2 _ fun n hn => ?_).2.mpr hfirst
  obtain rfl : n = 2 := by simpa using hn
  decide

/-- The buffer is accepted byte by byte, and its first byte twice. -/
theorem not_writesOnce_short :
    let results := [.taken 1, .taken 1]
    (Server.writeAll 2 results).ret = some 0 ∧
      acceptedBytes [104, 105] (Server.writeAll 2 results).calls = [104, 104] ∧
      Client.writeAll 2 results = Server.writeAll 2 results ∧
      ¬ WritesOnce [104, 105] 2 (Server.writeAll 2 results) :=
  ⟨rfl, rfl, rfl, fun h => absurd (h.whole rfl) (by decide)⟩

end OsTasks.UnixSocket
