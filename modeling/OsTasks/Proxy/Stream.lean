import OsTasks.Proxy.Transfer

/-!
# Stream integrity of a proxied direction

The buffer of a direction is followed through any sequence of calls of `transfer`, together with
all bytes that were read and all that were written. Whatever `poll` reports and the sockets answer,
the bytes written and the bytes unread are the bytes read, as long as `readv` stores bytes only
behind unread bytes that do not wrap. Behind wrapped ones, `make_write_iov` offers every cell in
front of `offset`, also the unread ones, and `read_rb` counts all that is stored there.

## Main definitions

* `TransferCall`, `Stream`, `Stream.step`, `Stream.run`.
* `Stream.Intact`: the bounds hold, and no byte is lost, doubled or out of order.
* `Stream.Stores`: no call of a sequence stores a byte behind unread bytes that wrap.

## Main results

* `intact_step`: a call keeps the stream intact, unless it stores a byte behind wrapped ones.
* `intact_run`: the sequences of calls that keep the stream intact.
-/

namespace OsTasks.Proxy

open PortForwarding (iovLength Pollfd ReadResult WriteResult getRwErrorCause)

/-! ### Sequences of calls -/

/-- The size of the buffers of a client. -/
def bufferSize : ℕ := 1024

/-- A call of `transfer`: its two `struct pollfd`s, with what `poll` has reported, and what the
sockets answer. -/
structure TransferCall where
  inFd : Pollfd
  outFd : Pollfd
  read : ReadResult
  write : WriteResult

/-- What a call does to a buffer. -/
def TransferCall.on (call : TransferCall) (buf : RoundBuffer) : Transferred :=
  transfer call.read call.write call.inFd call.outFd buf

/-- The buffer of a direction, and all bytes that were read and written. -/
structure Stream where
  buf : RoundBuffer
  read : List UInt8
  written : List UInt8

namespace Stream

/-- A new direction, over the array `mem` that `malloc` returned. -/
def start (mem : ℕ → UInt8) (capacity : ℕ) : Stream := ⟨rbInit mem capacity, [], []⟩

/-- One call of `transfer`. -/
def step (s : Stream) (call : TransferCall) : Stream where
  buf := (call.on s.buf).buf
  read := s.read ++ (call.on s.buf).read
  written := s.written ++ (call.on s.buf).written

def run (s : Stream) (calls : List TransferCall) : Stream := calls.foldl step s

/-- The bounds hold; the bytes written, then the bytes unread, are the bytes read. -/
structure Intact (s : Stream) : Prop where
  bounded : s.buf.Bounded
  bytes : s.written ++ s.buf.contents = s.read

/-- Every call that stores a byte finds unread bytes that do not wrap. -/
def Stores : Stream → List TransferCall → Prop
  | _, [] => True
  | s, call :: calls => (call.on s.buf).Stores ∧ Stores (s.step call) calls

end Stream

/-- The unread bytes do not wrap, or there is no room. -/
def RoundBuffer.CanStore (buf : RoundBuffer) : Prop := buf.Unwrapped ∨ buf.length = buf.capacity

/-! ### Integrity -/

theorem intact_start (mem : ℕ → UInt8) (capacity : ℕ+) : (Stream.start mem capacity).Intact :=
  ⟨bounded_rbInit mem capacity.pos, rfl⟩

variable {s : Stream}

/-- **One call.** -/
theorem intact_step (hs : s.Intact) {call : TransferCall} (h : (call.on s.buf).Stores) :
    (s.step call).Intact := by
  obtain ⟨hbounded, hmoved⟩ :=
    moves_transfer hs.bounded call.read call.write call.inFd call.outFd h
  refine ⟨hbounded, ?_⟩
  calc (s.step call).written ++ (s.step call).buf.contents
      = s.written ++ ((call.on s.buf).written ++ (call.on s.buf).buf.contents) :=
        List.append_assoc _ _ _
    _ = s.written ++ (s.buf.contents ++ (call.on s.buf).read) := congrArg _ hmoved
    _ = (s.step call).read := by rw [← List.append_assoc, hs.bytes]; rfl

theorem intact_run_of_stores (hs : s.Intact) {calls : List TransferCall}
    (h : s.Stores calls) : (s.run calls).Intact := by
  induction calls generalizing s with
  | nil => exact hs
  | cons call calls ih => exact ih (intact_step hs h.1) h.2

/-- What is stored in a buffer that can store is stored behind unread bytes that do not wrap. -/
theorem stores_of_canStore (call : TransferCall) {buf : RoundBuffer} (h : buf.CanStore) :
    (call.on buf).Stores := by
  intro c hc
  rcases mem_calls_andThen hc with hc | ⟨-, hc⟩
  · rcases mem_calls_andThen hc with hc | ⟨-, hc⟩
    · rcases readPart_cases call.read call.inFd call.outFd buf with
        heq | ⟨-, hroom, heq⟩ | ⟨cause, -, -, heq⟩ <;> rw [heq] at hc
      · exact absurd hc List.not_mem_nil
      · rw [List.mem_singleton.mp hc]
        exact fun _ => h.resolve_right hroom
      · rcases List.mem_pair.mp hc with rfl | rfl
        · exact fun hne => absurd rfl hne
        · exact trivial
    · exact stores_writePart _ _ _ _ c hc
  · exact stores_rearmPart _ _ _ c hc

/-- A call that reads more bytes than there are free cells. -/
def overrun (s : Stream) : TransferCall where
  inFd := { fd := 0, events := { pollin := true }, revents := { pollin := true } }
  outFd := { fd := 0, events := {}, revents := {} }
  read := .bytes (List.replicate (s.buf.capacity - s.buf.length + 1) 0)
  write := .taken 0

/-- Behind unread bytes that wrap, more bytes than there are free cells can be stored. -/
theorem not_bounded_overrun (hs : s.Intact) (h : ¬ s.buf.CanStore) :
    ¬ (s.step (overrun s)).buf.Bounded := by
  rw [RoundBuffer.CanStore, not_or] at h
  obtain ⟨hwrap, hfull⟩ := h
  have hoffset := hs.bounded.offset_lt
  have hlength := hs.bounded.length_le
  have hiov : makeWriteIov s.buf = [⟨0, s.buf.offset⟩] := by
    rw [makeWriteIov_eq hs.bounded]
    exact PortForwarding.bufWritingIov_of_wrapped hwrap hfull
  have hfits : s.buf.capacity - s.buf.length + 1 ≤ s.buf.offset := by
    rw [RoundBuffer.Unwrapped] at hwrap
    omega
  set bytes := List.replicate (s.buf.capacity - s.buf.length + 1) (0 : UInt8) with hbytes
  have hcount : bytes.length = s.buf.capacity - s.buf.length + 1 := List.length_replicate
  have htake : bytes.take s.buf.offset = bytes := List.take_of_length_le (hcount.trans_le hfits)
  have hread : readRb (.bytes bytes) s.buf = ((bytes.length : ℤ), bytes,
      { s.buf with
        buffer := storeAt s.buf.buffer (PortForwarding.iovAddrs [⟨0, s.buf.offset⟩]) bytes
        length := s.buf.length + bytes.length }) := by
    simp [readRb, hiov, iovLength, htake]
  have hcause : getRwErrorCause (bytes.length : ℤ) (ReadResult.bytes bytes).errno = .none := by
    unfold getRwErrorCause
    rw [if_neg (by omega), if_neg (by omega)]
  have hpart : (readPart (.bytes bytes) (overrun s).inFd (overrun s).outFd s.buf) =
      ⟨false, (overrun s).inFd, (overrun s).outFd, (readRb (.bytes bytes) s.buf).2.2,
        [.readv 0 s.buf bytes .none]⟩ := by
    unfold readPart
    rw [if_pos (by simp [overrun, rbFull, hfull]), hread]
    dsimp only
    rw [hcause]
    rfl
  have hbuf : (s.step (overrun s)).buf = (readRb (.bytes bytes) s.buf).2.2 := by
    change (((readPart (.bytes bytes) _ _ _).andThen _).andThen _).buf = _
    rw [hpart, andThen_of_not_ended rfl, andThen_of_not_ended rfl, buf_rearmPart]
    rfl
  intro hbounded
  have hle := hbounded.length_le
  rw [hbuf, hread] at hle
  dsimp only at hle
  omega

/-- **Stream integrity.** For every sequence of calls on a new direction: the stream is intact if
every call that stores a byte finds unread bytes that do not wrap; and as long as it is intact, it
stays so for every next call exactly if the unread bytes do not wrap or there is no room. -/
theorem intact_run (mem : ℕ → UInt8) (capacity : ℕ+) (calls : List TransferCall) :
    let s := (Stream.start mem capacity).run calls
    ((Stream.start mem capacity).Stores calls → s.Intact) ∧
      (s.Intact → ((∀ call, (s.step call).Intact) ↔ s.buf.CanStore)) := by
  intro s
  refine ⟨intact_run_of_stores (intact_start mem capacity), fun hs => ⟨fun hall => ?_, ?_⟩⟩
  · by_contra hno
    exact not_bounded_overrun hs hno (hall _).bounded
  · exact fun hcan call => intact_step hs (stores_of_canStore call hcan)

/-- A call for which `poll` has reported both sockets. -/
def bothReady (read : ReadResult) (write : WriteResult) : TransferCall where
  inFd := { fd := 4, events := { pollin := true }, revents := { pollin := true } }
  outFd :=
    { fd := 5
      events := { pollin := true, pollout := true }
      revents := { pollout := true } }
  read := read
  write := write

/-- The client sends three bytes, of which the service takes two at once and the third with the
next call, in which the client sends one more. -/
theorem intact_run_fourBytes :
    let start := Stream.start (fun _ => 0) bufferSize
    let calls := [bothReady (.bytes [1, 2, 3]) (.taken 2), bothReady (.bytes [4]) (.taken 1)]
    start.Stores calls ∧ (start.run calls).Intact ∧ (start.run calls).written = [1, 2, 3] := by
  intro start calls
  have hstores : start.Stores calls := ⟨by decide, by decide, trivial⟩
  exact ⟨hstores, (intact_run _ 1024 calls).1 hstores, by decide⟩

/-- A client sends as much as there is room for, and the service takes two bytes. One byte more
wraps around the end of the array; two cells are offered behind it, of which one is unread. When
both are filled, the buffer counts more bytes than it has cells. -/
theorem not_intact_overrun :
    ¬ ((Stream.start (fun _ => 0) bufferSize).run
      [bothReady (.bytes (List.replicate bufferSize 1)) (.taken 2),
        bothReady (.bytes [2]) (.error .eagain),
        bothReady (.bytes [3, 4]) (.error .eagain)]).Intact :=
  fun h => absurd h.bounded.length_le (by decide +kernel)

end OsTasks.Proxy
