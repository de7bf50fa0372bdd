import OsTasks.PortForwarding.Manager
import OsTasks.Proxy.RoundBuffer

/-!
# One direction of a proxied client

`transfer` moves bytes of one direction: from the socket of `in_fd` to the buffer, from the buffer
to the socket of `out_fd`. A read or write that ends the direction clears its flags in both
`struct pollfd`s and shuts the other socket down; otherwise `POLLOUT` of `out_fd` is requested
exactly as long as bytes are left. The three parts of the function are definitions of their own.

## Main definitions

* `IoCall`: the system calls of `transfer`, and the request of `POLLOUT`.
* `readPart`, `writePart`, `rearmPart`, `transfer`.
* `Transferred.Stores`: no byte is stored behind unread bytes that wrap.

## Main results

* `readPart_cases`, `writePart_cases`: what the two parts can do.
* `moves_transfer`: the bytes written and left are those that were there and those that were read.
-/

namespace OsTasks.Proxy

open PortForwarding (iovLength Pollfd PollMask clearPollfdFlags setPollfdFlags complement ReadResult
  WriteResult RwCause Direction getRwErrorCause)

/-! ### The function -/

/-- The calls of `transfer`, with the descriptor that is passed, and the request of `POLLOUT`, with
the descriptor in the `struct pollfd`. A read carries the buffer as it was at the call, a shutdown
what has ended the direction. -/
inductive IoCall
  | readv (fd : ℤ) (buf : RoundBuffer) (bytes : List UInt8) (cause : RwCause)
  | writev (fd : ℤ) (bytes : List UInt8) (cause : RwCause)
  | shutdown (fd : ℤ) (how : Direction) (cause : RwCause)
  | arm (fd : ℤ)

/-- What `transfer` has done: whether it returned `-1`, what became of its arguments, the calls. -/
structure Transferred where
  ended : Bool
  inFd : Pollfd
  outFd : Pollfd
  buf : RoundBuffer
  calls : List IoCall

/-- `try_shutdown`. -/
def tryShutdown (fd : ℤ) (how : Direction) (cause : RwCause) : IoCall :=
  .shutdown (if fd < 0 then complement fd else fd) how cause

/-- The part of `transfer` that reads, when the socket answers by `r`. -/
def readPart (r : ReadResult) (inFd outFd : Pollfd) (buf : RoundBuffer) : Transferred :=
  if inFd.revents.pollin && !rbFull buf then
    let (res, bytes, buf') := readRb r buf
    let cause := getRwErrorCause res r.errno
    let call := IoCall.readv inFd.fd buf bytes cause
    match cause with
    | .none => ⟨false, inFd, outFd, buf', [call]⟩
    | .eof | .error =>
      let inFd := clearPollfdFlags inFd { pollin := true }
      let outFd := clearPollfdFlags outFd { pollout := true }
      ⟨true, inFd, outFd, buf', [call, tryShutdown outFd.fd .wr cause]⟩
  else ⟨false, inFd, outFd, buf, []⟩

/-- The part of `transfer` that writes, when the socket answers by `r`. -/
def writePart (r : WriteResult) (inFd outFd : Pollfd) (buf : RoundBuffer) : Transferred :=
  if outFd.revents.pollout && !rbEmpty buf then
    let (res, bytes, buf') := writeRb r buf
    let cause := getRwErrorCause res r.errno
    let call := IoCall.writev outFd.fd bytes cause
    match cause with
    | .none => ⟨false, inFd, outFd, buf', [call]⟩
    | .eof | .error =>
      let inFd := clearPollfdFlags inFd { pollin := true }
      let outFd := clearPollfdFlags outFd { pollout := true }
      ⟨true, inFd, outFd, buf', [call, tryShutdown inFd.fd .rd cause]⟩
  else ⟨false, inFd, outFd, buf, []⟩

/-- The part of `transfer` that requests `POLLOUT` as long as bytes are left. -/
def rearmPart (inFd outFd : Pollfd) (buf : RoundBuffer) : Transferred :=
  if rbEmpty buf then ⟨false, inFd, clearPollfdFlags outFd { pollout := true }, buf, []⟩
  else
    let outFd := setPollfdFlags outFd { pollout := true }
    ⟨false, inFd, outFd, buf, [.arm outFd.fd]⟩

/-- A part of `transfer`, and the next one unless the direction has ended. -/
def Transferred.andThen (t : Transferred) (next : Pollfd → Pollfd → RoundBuffer → Transferred) :
    Transferred :=
  if t.ended then t
  else
    let t' := next t.inFd t.outFd t.buf
    { t' with calls := t.calls ++ t'.calls }

/-- `transfer`, when the sockets answer by `r` and `w`. -/
def transfer (r : ReadResult) (w : WriteResult) (inFd outFd : Pollfd) (buf : RoundBuffer) :
    Transferred :=
  ((readPart r inFd outFd buf).andThen (writePart w)).andThen rearmPart

/-! ### The bytes of a call -/

/-- The bytes that calls have read. -/
def IoCall.read : IoCall → List UInt8
  | .readv _ _ bytes _ => bytes
  | .writev .. | .shutdown .. | .arm _ => []

/-- The bytes that calls have written. -/
def IoCall.written : IoCall → List UInt8
  | .writev _ bytes _ => bytes
  | .readv .. | .shutdown .. | .arm _ => []

/-- A call that stores a byte finds unread bytes that do not wrap. -/
def IoCall.Stores : IoCall → Prop
  | .readv _ buf bytes _ => bytes ≠ [] → buf.Unwrapped
  | .writev .. | .shutdown .. | .arm _ => True

instance : DecidablePred IoCall.Stores := fun c =>
  match c with
  | .readv _ buf bytes _ => inferInstanceAs (Decidable (bytes ≠ [] → buf.Unwrapped))
  | .writev .. | .shutdown .. | .arm _ => inferInstanceAs (Decidable True)

namespace Transferred

/-- The bytes read by `transfer`. -/
def read (t : Transferred) : List UInt8 := t.calls.flatMap IoCall.read

/-- The bytes written by `transfer`. -/
def written (t : Transferred) : List UInt8 := t.calls.flatMap IoCall.written

/-- What `transfer` stores, it stores behind unread bytes that do not wrap. -/
def Stores (t : Transferred) : Prop := ∀ c ∈ t.calls, c.Stores

instance (t : Transferred) : Decidable t.Stores :=
  inferInstanceAs (Decidable (∀ c ∈ t.calls, c.Stores))

end Transferred

/-! ### What the parts do -/

section Parts

variable {r : ReadResult} {w : WriteResult} {inFd outFd : Pollfd} {buf : RoundBuffer}

theorem andThen_of_ended {t : Transferred} (h : t.ended = true)
    (next : Pollfd → Pollfd → RoundBuffer → Transferred) : t.andThen next = t := if_pos h

theorem andThen_of_not_ended {t : Transferred} (h : t.ended = false)
    (next : Pollfd → Pollfd → RoundBuffer → Transferred) :
    t.andThen next =
      { next t.inFd t.outFd t.buf with calls := t.calls ++ (next t.inFd t.outFd t.buf).calls } :=
  if_neg (ne_true_of_eq_false h)

/-- The calls of a part, or of the part behind it. -/
theorem mem_calls_andThen {t : Transferred} {next : Pollfd → Pollfd → RoundBuffer → Transferred}
    {c : IoCall} (h : c ∈ (t.andThen next).calls) :
    c ∈ t.calls ∨ t.ended = false ∧ c ∈ (next t.inFd t.outFd t.buf).calls := by
  cases hended : t.ended with
  | true =>
    rw [andThen_of_ended hended] at h
    exact .inl h
  | false =>
    rw [andThen_of_not_ended hended] at h
    exact (List.mem_append.mp h).imp_right fun hc => ⟨rfl, hc⟩

/-- A read that ends the direction has stored nothing. -/
theorem readRb_of_cause (h : getRwErrorCause (readRb r buf).1 r.errno ≠ .none) :
    (readRb r buf).2.1 = [] ∧ (readRb r buf).2.2 = buf := by
  unfold readRb at h ⊢
  dsimp only at h ⊢
  split_ifs at h ⊢ with hnone
  · exact ⟨rfl, rfl⟩
  · cases r with
    | error e => exact ⟨rfl, rfl⟩
    | bytes bs =>
      have hgot : bs.take (iovLength (makeWriteIov buf)) = [] := by
        by_contra hne
        have hpos := List.length_pos_of_ne_nil hne
        refine h ?_
        unfold getRwErrorCause
        rw [if_neg (by dsimp only; omega), if_neg (by dsimp only; omega)]
      simp only [hgot, storeAt_nil, List.length_nil, Nat.add_zero, and_self]

/-- A write that ends the direction has taken nothing. -/
theorem writeRb_of_cause (h : getRwErrorCause (writeRb w buf).1 w.errno ≠ .none) :
    (writeRb w buf).2.1 = [] := by
  unfold writeRb at h ⊢
  dsimp only at h ⊢
  split_ifs at h ⊢ with hnone
  · rfl
  · cases w with
    | error e => rfl
    | taken n =>
      by_contra hne
      have hpos := List.length_pos_of_ne_nil hne
      refine h ?_
      unfold getRwErrorCause
      rw [if_neg (by dsimp only at hpos ⊢; omega), if_neg (by dsimp only at hpos ⊢; omega)]

/-- **The reading part.** It does nothing, or it reads and goes on, or it reads nothing and ends
the direction. -/
theorem readPart_cases (r : ReadResult) (inFd outFd : Pollfd) (buf : RoundBuffer) :
    readPart r inFd outFd buf = ⟨false, inFd, outFd, buf, []⟩ ∨
      (inFd.revents.pollin = true ∧ buf.length ≠ buf.capacity ∧ readPart r inFd outFd buf =
        ⟨false, inFd, outFd, (readRb r buf).2.2,
          [.readv inFd.fd buf (readRb r buf).2.1 .none]⟩) ∨
      ∃ cause, cause ≠ .none ∧ inFd.revents.pollin = true ∧ readPart r inFd outFd buf =
        ⟨true, clearPollfdFlags inFd { pollin := true },
          clearPollfdFlags outFd { pollout := true }, buf,
          [.readv inFd.fd buf [] cause,
            tryShutdown (clearPollfdFlags outFd { pollout := true }).fd .wr cause]⟩ := by
  by_cases hgo : (inFd.revents.pollin && !rbFull buf) = true
  · obtain ⟨hin, hroom⟩ := Bool.and_eq_true_iff.mp hgo
    rw [Bool.not_eq_true'] at hroom
    have hroom : buf.length ≠ buf.capacity := fun hfull =>
      Bool.false_ne_true (hroom.symm.trans ((rbFull_iff buf).mpr hfull))
    refine .inr ?_
    rw [readPart, if_pos hgo]
    dsimp only
    by_cases hcause : getRwErrorCause (readRb r buf).1 r.errno = .none
    · rw [hcause]
      exact .inl ⟨hin, hroom, rfl⟩
    · obtain ⟨hnil, hsame⟩ := readRb_of_cause hcause
      refine .inr ⟨_, hcause, hin, ?_⟩
      rw [hnil, hsame]
      generalize getRwErrorCause (readRb r buf).1 r.errno = cause at hcause ⊢
      cases cause with
      | none => exact absurd rfl hcause
      | eof => rfl
      | error => rfl
  · exact .inl (if_neg hgo)

/-- **The writing part.** It does nothing, or it writes and goes on, or it writes nothing and ends
the direction. -/
theorem writePart_cases (w : WriteResult) (inFd outFd : Pollfd) (buf : RoundBuffer) :
    writePart w inFd outFd buf = ⟨false, inFd, outFd, buf, []⟩ ∨
      (outFd.revents.pollout = true ∧ writePart w inFd outFd buf =
        ⟨false, inFd, outFd, (writeRb w buf).2.2, [.writev outFd.fd (writeRb w buf).2.1 .none]⟩) ∨
      ∃ cause, cause ≠ .none ∧ outFd.revents.pollout = true ∧ (writeRb w buf).2.1 = [] ∧
        writePart w inFd outFd buf =
          ⟨true, clearPollfdFlags inFd { pollin := true },
            clearPollfdFlags outFd { pollout := true }, (writeRb w buf).2.2,
            [.writev outFd.fd [] cause,
              tryShutdown (clearPollfdFlags inFd { pollin := true }).fd .rd cause]⟩ := by
  by_cases hgo : (outFd.revents.pollout && !rbEmpty buf) = true
  · have hout : outFd.revents.pollout = true := (Bool.and_eq_true_iff.mp hgo).1
    refine .inr ?_
    rw [writePart, if_pos hgo]
    dsimp only
    by_cases hcause : getRwErrorCause (writeRb w buf).1 w.errno = .none
    · rw [hcause]
      exact .inl ⟨hout, rfl⟩
    · have hnil := writeRb_of_cause hcause
      refine .inr ⟨_, hcause, hout, hnil, ?_⟩
      rw [hnil]
      generalize getRwErrorCause (writeRb w buf).1 w.errno = cause at hcause ⊢
      cases cause with
      | none => exact absurd rfl hcause
      | eof => rfl
      | error => rfl
  · exact .inl (if_neg hgo)

/-- Only the reading part stores. -/
theorem stores_writePart (w : WriteResult) (inFd outFd : Pollfd) (buf : RoundBuffer) :
    (writePart w inFd outFd buf).Stores := by
  intro c hc
  rcases writePart_cases w inFd outFd buf with heq | ⟨-, heq⟩ | ⟨cause, -, -, -, heq⟩ <;>
    rw [heq] at hc
  · exact absurd hc List.not_mem_nil
  · rw [List.mem_singleton.mp hc]
    exact trivial
  · rcases List.mem_pair.mp hc with rfl | rfl <;> exact trivial

@[simp] theorem buf_rearmPart (inFd outFd : Pollfd) (buf : RoundBuffer) :
    (rearmPart inFd outFd buf).buf = buf := by
  unfold rearmPart
  split_ifs <;> rfl

theorem stores_rearmPart (inFd outFd : Pollfd) (buf : RoundBuffer) :
    (rearmPart inFd outFd buf).Stores := by
  unfold rearmPart
  split_ifs
  · exact fun c hc => absurd hc List.not_mem_nil
  · rintro c hc
    rw [List.mem_singleton.mp hc]
    exact trivial

/-- **The function.** It has ended the direction in reading or in writing, or it goes on; it has
read before it writes, and the request of `POLLOUT` comes last. -/
theorem transfer_cases (r : ReadResult) (w : WriteResult) (inFd outFd : Pollfd)
    (buf : RoundBuffer) :
    let closeIn := clearPollfdFlags inFd { pollin := true }
    let closeOut := clearPollfdFlags outFd { pollout := true }
    let openOut := setPollfdFlags outFd { pollout := true }
    let t := transfer r w inFd outFd buf
    (∃ cause, cause ≠ .none ∧ inFd.revents.pollin = true ∧ t = ⟨true, closeIn, closeOut, buf,
        [.readv inFd.fd buf [] cause, tryShutdown closeOut.fd .wr cause]⟩) ∨
      ∃ reads, (reads = [] ∨ inFd.revents.pollin = true ∧
          ∃ bytes, reads = [.readv inFd.fd buf bytes .none]) ∧
        ((∃ cause buf', cause ≠ .none ∧ outFd.revents.pollout = true ∧
            t = ⟨true, closeIn, closeOut, buf',
              reads ++ [.writev outFd.fd [] cause, tryShutdown closeIn.fd .rd cause]⟩) ∨
          ∃ writes buf', (writes = [] ∨ outFd.revents.pollout = true ∧
              ∃ bytes, writes = [.writev outFd.fd bytes .none]) ∧
            (t = ⟨false, inFd, closeOut, buf', reads ++ writes⟩ ∨
              t = ⟨false, inFd, openOut, buf', reads ++ writes ++ [.arm openOut.fd]⟩)) := by
  intro closeIn closeOut openOut t
  obtain ⟨reads, buf₁, hreads, hread⟩ | ⟨cause, hcause, hin, hread⟩ :
      (∃ reads buf₁, (reads = [] ∨ inFd.revents.pollin = true ∧
          ∃ bytes, reads = [.readv inFd.fd buf bytes .none]) ∧
        readPart r inFd outFd buf = ⟨false, inFd, outFd, buf₁, reads⟩) ∨
      ∃ cause, cause ≠ .none ∧ inFd.revents.pollin = true ∧
        readPart r inFd outFd buf = ⟨true, closeIn, closeOut, buf,
          [.readv inFd.fd buf [] cause, tryShutdown closeOut.fd .wr cause]⟩ := by
    rcases readPart_cases r inFd outFd buf with heq | ⟨hin, -, heq⟩ | hended
    · exact .inl ⟨_, _, .inl rfl, heq⟩
    · exact .inl ⟨_, _, .inr ⟨hin, _, rfl⟩, heq⟩
    · exact .inr hended
  · refine .inr ⟨reads, hreads, ?_⟩
    have ht : t = ((Transferred.mk false inFd outFd buf₁ reads).andThen (writePart w)).andThen
        rearmPart := by rw [← hread]; rfl
    rw [andThen_of_not_ended (t := ⟨false, inFd, outFd, buf₁, reads⟩) rfl] at ht
    obtain ⟨writes, buf₂, hwrites, hwrite⟩ | ⟨cause, hcause, hout, -, hwrite⟩ :
        (∃ writes buf₂, (writes = [] ∨ outFd.revents.pollout = true ∧
            ∃ bytes, writes = [.writev outFd.fd bytes .none]) ∧
          writePart w inFd outFd buf₁ = ⟨false, inFd, outFd, buf₂, writes⟩) ∨
        ∃ cause, cause ≠ .none ∧ outFd.revents.pollout = true ∧ (writeRb w buf₁).2.1 = [] ∧
          writePart w inFd outFd buf₁ = ⟨true, closeIn, closeOut, (writeRb w buf₁).2.2,
            [.writev outFd.fd [] cause, tryShutdown closeIn.fd .rd cause]⟩ := by
      rcases writePart_cases w inFd outFd buf₁ with heq | ⟨hout, heq⟩ | hended
      · exact .inl ⟨_, _, .inl rfl, heq⟩
      · exact .inl ⟨_, _, .inr ⟨hout, _, rfl⟩, heq⟩
      · exact .inr hended
    · refine .inr ⟨writes, buf₂, hwrites, ?_⟩
      rw [hwrite, andThen_of_not_ended rfl] at ht
      by_cases hempty : rbEmpty buf₂ = true
      · rw [rearmPart, if_pos hempty, List.append_nil] at ht
        exact .inl ht
      · rw [rearmPart, if_neg hempty] at ht
        exact .inr ht
    · rw [hwrite, andThen_of_ended rfl] at ht
      exact .inl ⟨cause, _, hcause, hout, ht⟩
  · have ht : t = ((readPart r inFd outFd buf).andThen (writePart w)).andThen rearmPart := rfl
    rw [hread, andThen_of_ended rfl, andThen_of_ended rfl] at ht
    exact .inl ⟨cause, hcause, hin, ht⟩

end Parts

/-! ### The bytes of a direction -/

/-- If no byte is stored behind wrapped ones, then the bounds are kept, and the bytes written and
left are those that were there and those that were read. -/
def Transferred.Moves (t : Transferred) (buf : RoundBuffer) : Prop :=
  t.Stores → t.buf.Bounded ∧ t.written ++ t.buf.contents = buf.contents ++ t.read

section Moves

variable {buf : RoundBuffer}

theorem moves_readPart (h : buf.Bounded) (r : ReadResult) (inFd outFd : Pollfd) :
    (readPart r inFd outFd buf).Moves buf := by
  intro hstores
  rcases readPart_cases r inFd outFd buf with heq | ⟨-, -, heq⟩ | ⟨cause, -, -, heq⟩
  · rw [heq]
    exact ⟨h, (List.append_nil _).symm⟩
  · rw [heq] at hstores ⊢
    have hspec := readRb_spec r h (hstores _ List.mem_cons_self)
    refine ⟨hspec.1, ?_⟩
    simpa [Transferred.written, Transferred.read, IoCall.written, IoCall.read] using hspec.2
  · rw [heq]
    refine ⟨h, ?_⟩
    simp [Transferred.written, Transferred.read, IoCall.written, IoCall.read, tryShutdown]

theorem moves_writePart (h : buf.Bounded) (w : WriteResult) (inFd outFd : Pollfd) :
    (writePart w inFd outFd buf).Moves buf := by
  intro hstores
  have hspec := writeRb_spec w h
  rcases writePart_cases w inFd outFd buf with heq | ⟨-, heq⟩ | ⟨cause, -, -, hnil, heq⟩
  · rw [heq]
    exact ⟨h, (List.append_nil _).symm⟩
  · rw [heq]
    refine ⟨hspec.1, ?_⟩
    simpa [Transferred.written, Transferred.read, IoCall.written, IoCall.read] using hspec.2
  · rw [heq]
    rw [hnil] at hspec
    refine ⟨hspec.1, ?_⟩
    simpa [Transferred.written, Transferred.read, IoCall.written, IoCall.read, tryShutdown]
      using hspec.2

theorem moves_rearmPart (h : buf.Bounded) (inFd outFd : Pollfd) :
    (rearmPart inFd outFd buf).Moves buf := by
  intro _
  unfold rearmPart
  split_ifs
  · exact ⟨h, (List.append_nil _).symm⟩
  · exact ⟨h, (List.append_nil _).symm⟩

theorem Transferred.Moves.andThen {t : Transferred} (ht : t.Moves buf)
    {next : Pollfd → Pollfd → RoundBuffer → Transferred}
    (hnext : ∀ {buf}, buf.Bounded → ∀ inFd outFd, (next inFd outFd buf).Moves buf) :
    (t.andThen next).Moves buf := by
  cases hended : t.ended with
  | true => rwa [andThen_of_ended hended]
  | false =>
    rw [andThen_of_not_ended hended]
    intro hstores
    obtain ⟨hb, hmoved⟩ := ht fun c hc => hstores c (List.mem_append_left _ hc)
    obtain ⟨hb', hmoved'⟩ := hnext hb t.inFd t.outFd fun c hc =>
      hstores c (List.mem_append_right _ hc)
    refine ⟨hb', ?_⟩
    simp only [Transferred.written, Transferred.read, List.flatMap_append] at hmoved hmoved' ⊢
    rw [List.append_assoc, hmoved', ← List.append_assoc, hmoved, List.append_assoc]

/-- **One call of `transfer`.** -/
theorem moves_transfer (h : buf.Bounded) (r : ReadResult) (w : WriteResult)
    (inFd outFd : Pollfd) : (transfer r w inFd outFd buf).Moves buf :=
  ((moves_readPart h r inFd outFd).andThen fun hb => moves_writePart hb w).andThen moves_rearmPart

end Moves

end OsTasks.Proxy
