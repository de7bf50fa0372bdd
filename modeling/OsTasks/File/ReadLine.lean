import Mathlib.Data.Int.Notation
import Mathlib.Data.List.Forall2
import Mathlib.Data.List.TakeWhile
import OsTasks.File.ScanFile
import OsTasks.Library.Pieces

/-!
# Buffered lines

`read_line.c` reads a descriptor through a buffer and hands out strings that end with a line break,
with the caller's array or with the file. The fields of `struct buffer` are those of the source;
that the unread bytes lie in the array is a field of the Lean structure. A `struct file` is its
buffer: the descriptor is the standard input, the only one there is.

What the kernel answers is given in advance: the results of the calls of `select` and of `read`.
When they are used up the input is always readable, and at its end. `select` watches the timer
that was started before it and with the same time, so that its own timeout is never the first.

## Main definitions

* `Buffer`, `makeBuf`, `bufConsumeLine`, `Kernel`, `refill`, `readLineLoop`, `readLine`.
* `readLines`: a sequence of calls.
* `piecesOf`, `lineOf`: the bytes that each call takes, and what it makes of them.
* `supply`: what there is left to read.

## Main results

* `Source.readLineLoop`: the loop depends on the bytes that are left, not on where they are.
* `readLines_eq`: the results of a sequence of calls are determined by the bytes of the file.
* `supply_readLine`: a call reports an end, or takes something.
-/

namespace OsTasks.File

/-- `RL_FAIL`. -/
def rlFail : ℤ := -1

/-- `RL_EOF`. -/
def rlEof : ℤ := -2

/-- `RL_TIMEOUT`. -/
def rlTimeout : ℤ := -3

/-! ### The buffer -/

/-- `struct buffer`, with the array. -/
structure Buffer where
  buf : List UInt8
  cap : ℕ
  pos : ℕ
  len : ℕ
  length_buf : buf.length = cap
  le_cap : pos + len ≤ cap

/-- `make_buf` over the array that `malloc` returned. -/
def makeBuf (mem : List UInt8) : Buffer where
  buf := mem
  cap := mem.length
  pos := 0
  len := 0
  length_buf := rfl
  le_cap := Nat.zero_le _

/-- The bytes that have been read from the file and not been consumed. -/
def Buffer.unread (buf : Buffer) : List UInt8 := (buf.buf.drop buf.pos).take buf.len

/-- The loop of `buf_consume_line` over the bytes from the index `i` on; the result is `cnt`. -/
def countLine : List UInt8 → ℕ → ℕ
  | [], i => i
  | b :: bs, i => if b = newline then i + 1 else countLine bs (i + 1)

theorem countLine_le (bs : List UInt8) (i : ℕ) : countLine bs i ≤ i + bs.length := by
  induction bs generalizing i with
  | nil => exact Nat.le_refl _
  | cons b bs ih =>
    have hrest := ih (i + 1)
    rw [countLine, List.length_cons]
    split_ifs <;> omega

/-- `buf_consume_line`: the bytes that are copied to the caller, and the buffer without them. -/
def bufConsumeLine (buf : Buffer) (size : ℕ) : List UInt8 × Buffer :=
  let start := buf.buf.drop buf.pos
  let cnt := countLine (start.take (if buf.len ≤ size then buf.len else size)) 0
  (start.take cnt,
    { buf with
      pos := buf.pos + cnt
      len := buf.len - cnt
      le_cap := by
        have hcnt := countLine_le (start.take (if buf.len ≤ size then buf.len else size)) 0
        have hlen : (if buf.len ≤ size then buf.len else size) ≤ buf.len := by split <;> omega
        rw [Nat.zero_add, List.length_take] at hcnt
        have hle := buf.le_cap
        omega })

/-- The bytes that `read` delivers come to the beginning of the array. -/
def Buffer.store (buf : Buffer) (bs : List UInt8) : Buffer :=
  { buf with
    buf := bs.take buf.cap ++ buf.buf.drop bs.length
    length_buf := by
      rw [List.length_append, List.length_take, List.length_drop, buf.length_buf]
      omega }

/-- `buf->pos = 0`, and `buf->len = bytes_read`, of which there are at most `cap`. -/
def Buffer.restart (buf : Buffer) (bytesRead : ℕ) : Buffer :=
  { buf with
    pos := 0
    len := min bytesRead buf.cap
    le_cap := by omega }

/-! ### The kernel -/

/-- What `select` finds: it fails, or one of the descriptors is readable, or both are. -/
inductive Select
  | failed
  | input
  | timer
  | both

/-- The results of the calls that are still to come. -/
structure Kernel where
  selects : List Select
  reads : List FileRead

/-- `select`, and the kernel after it. -/
def Kernel.select (k : Kernel) : Select × Kernel :=
  match k.selects with
  | [] => (.input, k)
  | s :: ss => (s, { k with selects := ss })

/-- `read`, and the kernel after it. -/
def Kernel.read (k : Kernel) : FileRead × Kernel :=
  match k.reads with
  | [] => (.bytes [], k)
  | r :: rs => (r, { k with reads := rs })

/-- The bytes that `read` has delivered. -/
def FileRead.delivered : FileRead → List UInt8
  | .failed => []
  | .bytes bs => bs

/-- The bytes that `read` has yet to deliver. -/
def Kernel.pending (k : Kernel) : List UInt8 := k.reads.flatMap FileRead.delivered

/-- A kernel that delivers the bytes in these chunks, without a timeout. -/
def kernelOf {cap : ℕ} {stream : List UInt8} (d : Chunking cap stream) : Kernel :=
  ⟨[], d.chunks.map FileRead.bytes⟩

/-! ### Reading a line -/

/-- Where the loop of `read_line` ends: `err`, the bytes from `start` on, and the rest. -/
structure Stopped where
  err : ℤ
  res : List UInt8
  buf : Buffer
  kernel : Kernel

/-- `bytes_read` and the bytes, or the error with which the loop ends. -/
def awaitInput (timer : Bool) (buf : Buffer) (k : Kernel) : Except ℤ FileRead × Buffer × Kernel :=
  if timer then
    let s := k.select
    let r := s.2.read
    match s.1 with
    | .failed => (.error rlFail, buf, s.2)
    | .timer => (.error rlTimeout, buf, s.2)
    -- what has been read is lost
    | .both => (.error rlTimeout, buf.store r.1.delivered, r.2)
    | .input => (.ok r.1, buf.store r.1.delivered, r.2)
  else
    let r := k.read
    (.ok r.1, buf.store r.1.delivered, r.2)

/-- The first half of the loop: an empty buffer is filled, or the loop ends. -/
def refill (timer : Bool) (res : List UInt8) (buf : Buffer) (k : Kernel) :
    Except Stopped (Buffer × Kernel) :=
  if buf.len ≠ 0 then .ok (buf, k)
  else
    match awaitInput timer buf k with
    | (.error err, buf, k) => .error ⟨err, res, buf, k⟩
    | (.ok .failed, buf, k) => .error ⟨rlFail, res, buf, k⟩
    | (.ok (.bytes bs), buf, k) =>
      if bs.length = 0 then
        if res ≠ [] then .error ⟨0, res ++ [newline], buf, k⟩
        else .error ⟨rlEof, res, buf, k⟩
      else .ok (buf.restart bs.length, k)

/-- The loop of `read_line`. A round that does not end it copies a byte at least, so that there are
at most `size` of them; the first argument counts them. -/
def readLineLoop (timer : Bool) : ℕ → ℕ → List UInt8 → Buffer → Kernel → Stopped
  | 0, _, res, buf, k => ⟨0, res, buf, k⟩
  | rounds + 1, size, res, buf, k =>
    if size = 0 then ⟨0, res, buf, k⟩
    else
      match refill timer res buf k with
      | .error stopped => stopped
      | .ok (buf, k) =>
        let c := bufConsumeLine buf size
        let res := res ++ c.1
        if res.getLast? = some newline then ⟨0, res, c.2, k⟩
        else readLineLoop timer rounds (size - c.1.length) res c.2 k

/-- What a call returns, and the bytes that it has written to the caller's array. -/
structure Returned where
  ret : ℤ
  res : List UInt8
  deriving DecidableEq

/-- `read_line`; `timerfd_create` succeeds. -/
def readLine (timeout : ℤ) (size : ℕ) (buf : Buffer) (k : Kernel) : Returned × Buffer × Kernel :=
  if size = 0 then (⟨0, []⟩, buf, k)
  else
    let r := readLineLoop (timeout ≠ -1) (size - 1) (size - 1) [] buf k
    (if r.err ≠ 0 then ⟨r.err, r.res⟩ else ⟨r.res.length, r.res ++ [0]⟩, r.buf, r.kernel)

/-- The string in an array. -/
def cString (bs : List UInt8) : List UInt8 := bs.takeWhile (· ≠ 0)

/-- Calls with the given sizes, one after the other. -/
def readLines (timeout : ℤ) : List ℕ → Buffer → Kernel → List Returned × Buffer × Kernel
  | [], buf, k => ([], buf, k)
  | size :: sizes, buf, k =>
    let r := readLine timeout size buf k
    let rs := readLines timeout sizes r.2.1 r.2.2
    (r.1 :: rs.1, rs.2)

/-! ### Strings -/

@[simp] theorem cString_append_zero (bs bs' : List UInt8) :
    cString (bs ++ 0 :: bs') = cString bs := by
  induction bs with
  | nil => rfl
  | cons b bs ih =>
    unfold cString at ih ⊢
    rw [List.cons_append, List.takeWhile_cons, List.takeWhile_cons, ih]

theorem cString_eq_self_iff (bs : List UInt8) : cString bs = bs ↔ 0 ∉ bs := by
  rw [cString, List.takeWhile_eq_self_iff]
  exact ⟨fun h hzero => by simpa using h 0 hzero, fun h b hb => by
    simpa using fun hzero : b = 0 => h (hzero ▸ hb)⟩

/-- A string without a zero byte in it. -/
theorem cString_of_not_mem {s : List UInt8} (h : 0 ∉ s) : cString (s ++ [0]) = s := by
  rw [cString_append_zero, (cString_eq_self_iff s).mpr h]

/-! ### The buffer as a list -/

variable {buf : Buffer} {k : Kernel} {xs res : List UInt8} {size rounds : ℕ} {timer : Bool}

@[simp] theorem length_unread (buf : Buffer) : buf.unread.length = buf.len := by
  have hle := buf.le_cap
  have hlen := buf.length_buf
  rw [Buffer.unread, List.length_take, List.length_drop]
  omega

@[simp] theorem unread_makeBuf (mem : List UInt8) : (makeBuf mem).unread = [] := rfl

theorem countLine_take (n : ℕ) (bs : List UInt8) (i : ℕ) :
    countLine (bs.take n) i = i + (piece newline n bs).length := by
  induction bs generalizing n i with
  | nil => rw [List.take_nil, piece_nil]; rfl
  | cons b bs ih =>
    cases n with
    | zero => rw [List.take_zero, piece_zero]; rfl
    | succ n =>
      rw [List.take_succ_cons, countLine, piece]
      split_ifs with hb
      · rfl
      · rw [ih, List.length_cons]
        omega

/-- The bytes that `buf_consume_line` copies are counted. -/
theorem countLine_unread (buf : Buffer) (size : ℕ) :
    countLine ((buf.buf.drop buf.pos).take (if buf.len ≤ size then buf.len else size)) 0 =
      (piece newline size buf.unread).length := by
  have hstart : (buf.buf.drop buf.pos).take (if buf.len ≤ size then buf.len else size) =
      buf.unread.take size := by
    rw [Buffer.unread, List.take_take]
    congr 1
    split <;> omega
  rw [hstart, countLine_take, Nat.zero_add]

/-- What `buf_consume_line` copies is a piece of the unread bytes. -/
@[simp] theorem bufConsumeLine_fst (buf : Buffer) (size : ℕ) :
    (bufConsumeLine buf size).1 = piece newline size buf.unread := by
  have hpre := isPrefix_piece newline size buf.unread
  have hlen := hpre.length_le
  rw [length_unread] at hlen
  rw [bufConsumeLine]
  dsimp only
  rw [countLine_unread]
  refine Eq.trans ?_ (List.prefix_iff_eq_take.mp hpre).symm
  rw [Buffer.unread] at hlen ⊢
  rw [List.take_take, Nat.min_eq_left hlen]

/-- It drops what it copies. -/
@[simp] theorem unread_bufConsumeLine (buf : Buffer) (size : ℕ) :
    (bufConsumeLine buf size).2.unread =
      buf.unread.drop (piece newline size buf.unread).length := by
  have hcnt := countLine_unread buf size
  unfold Buffer.unread bufConsumeLine at *
  dsimp only
  rw [hcnt, List.drop_take, List.drop_drop]

@[simp] theorem cap_bufConsumeLine (buf : Buffer) (size : ℕ) :
    (bufConsumeLine buf size).2.cap = buf.cap := rfl

@[simp] theorem cap_restart (buf : Buffer) (n : ℕ) : (buf.restart n).cap = buf.cap := rfl

@[simp] theorem cap_store (buf : Buffer) (bs : List UInt8) : (buf.store bs).cap = buf.cap := rfl

/-- The bytes that have been delivered are unread. -/
theorem unread_restart_store {bs : List UInt8} (hle : bs.length ≤ buf.cap) :
    ((buf.store bs).restart bs.length).unread = bs := by
  have hmin : min bs.length buf.cap = bs.length := Nat.min_eq_left hle
  change ((bs.take buf.cap ++ buf.buf.drop bs.length).drop 0).take (min bs.length buf.cap) = bs
  rw [hmin, List.drop_zero, List.take_of_length_le hle, List.take_left]

/-! ### The bytes that are left -/

/-- Nothing fails and no timer expires, and the bytes `xs` are left, in the buffer and in the
kernel. -/
structure Source (buf : Buffer) (k : Kernel) (xs : List UInt8) : Prop where
  calm : k.selects = []
  reads : ∀ r ∈ k.reads, ∃ bs : List UInt8, r = .bytes bs ∧ bs ≠ [] ∧ bs.length ≤ buf.cap
  left : buf.unread ++ k.pending = xs

theorem source_makeBuf {mem stream : List UInt8} (d : Chunking mem.length stream) :
    Source (makeBuf mem) (kernelOf d) stream where
  calm := rfl
  reads := fun r hr => by
    obtain ⟨chunk, hchunk, rfl⟩ := List.mem_map.mp hr
    exact ⟨chunk, rfl, d.ne_nil chunk hchunk, d.length_le chunk hchunk⟩
  left := by
    have hpending : (kernelOf d).pending = d.chunks.flatten := by
      rw [kernelOf, Kernel.pending, List.flatMap_map]
      exact List.flatMap_id
    rw [unread_makeBuf, List.nil_append, hpending, d.flatten_eq]

/-- Without a timeout, the timer makes no difference. -/
theorem Source.awaitInput (h : Source buf k xs) (timer : Bool) :
    awaitInput timer buf k = (.ok k.read.1, buf.store k.read.1.delivered, k.read.2) := by
  have hselect : k.select = (.input, k) := by rw [Kernel.select, h.calm]
  rw [File.awaitInput, hselect]
  split_ifs <;> rfl

@[simp] theorem store_nil (buf : Buffer) : buf.store [] = buf := by simp [Buffer.store]

/-- At the end of the file the loop ends. -/
theorem Source.refill_nil (h : Source buf k []) (timer : Bool) (res : List UInt8) :
    refill timer res buf k = .error (if res ≠ [] then ⟨0, res ++ [newline], buf, k⟩
      else ⟨rlEof, res, buf, k⟩) := by
  obtain ⟨hunread, hpending⟩ := List.append_eq_nil_iff.mp h.left
  have hlen : buf.len = 0 := by rw [← length_unread, hunread, List.length_nil]
  have hreads : k.reads = [] := by
    refine List.eq_nil_iff_forall_not_mem.mpr fun r hr => ?_
    obtain ⟨bs, rfl, hbs, -⟩ := h.reads r hr
    exact hbs (List.flatMap_eq_nil_iff.mp hpending _ hr)
  have hread : k.read = (.bytes [], k) := by rw [Kernel.read, hreads]
  rw [File.refill, if_neg (fun hne => hne hlen), h.awaitInput, hread]
  dsimp only [FileRead.delivered, List.length_nil]
  rw [store_nil, if_pos rfl]
  split_ifs <;> rfl

/-- In front of it there are unread bytes after the first half of the loop. -/
theorem Source.refill (h : Source buf k xs) (hxs : xs ≠ []) (timer : Bool) (res : List UInt8) :
    ∃ buf' k', refill timer res buf k = .ok (buf', k') ∧ Source buf' k' xs ∧
      buf'.unread ≠ [] := by
  by_cases hlen : buf.len = 0
  · have hunread : buf.unread = [] := List.eq_nil_of_length_eq_zero (by rw [length_unread, hlen])
    have hpending := h.left
    rw [hunread, List.nil_append] at hpending
    cases hreads : k.reads with
    | nil =>
      rw [Kernel.pending, hreads] at hpending
      exact absurd hpending.symm hxs
    | cons r rs =>
      obtain ⟨bs, rfl, hbs, hle⟩ := h.reads r (hreads ▸ List.mem_cons_self)
      have hread : k.read = (.bytes bs, { k with reads := rs }) := by rw [Kernel.read, hreads]
      have hfilled := unread_restart_store hle
      have hne : ¬ bs.length = 0 := fun hzero => hbs (List.eq_nil_of_length_eq_zero hzero)
      refine ⟨(buf.store bs).restart bs.length, { k with reads := rs }, ?_, ⟨h.calm, ?_, ?_⟩, ?_⟩
      · rw [File.refill, if_neg (fun hnonzero => hnonzero hlen), h.awaitInput, hread]
        dsimp only [FileRead.delivered]
        rw [if_neg hne]
      · exact fun r hr => h.reads r (hreads ▸ List.mem_cons_of_mem _ hr)
      · rw [hfilled, ← hpending, Kernel.pending, Kernel.pending, hreads]
        rfl
      · rwa [hfilled]
  · refine ⟨buf, k, if_pos hlen, h, fun hunread => hlen ?_⟩
    rw [← length_unread, hunread, List.length_nil]

/-- The bytes that are copied are taken from what is left. -/
theorem Source.consume (h : Source buf k xs) (size : ℕ) :
    Source (bufConsumeLine buf size).2 k (xs.drop (piece newline size buf.unread).length) where
  calm := h.calm
  reads := h.reads
  left := by
    have hlen := (isPrefix_piece newline size buf.unread).length_le
    rw [unread_bufConsumeLine, ← h.left, List.drop_append_of_le_length hlen]

/-- What the loop makes of a piece `p` that is copied behind `res`. -/
def ending (size : ℕ) (res p : List UInt8) : ℤ × List UInt8 :=
  if Complete newline size p then (0, res ++ p)
  else if res ++ p = [] then (rlEof, res ++ p)
  else (0, res ++ p ++ [newline])

theorem ending_of_complete {p : List UInt8} (h : Complete newline size p) (res : List UInt8) :
    ending size res p = (0, res ++ p) := if_pos h

theorem ending_zero (res : List UInt8) : ending 0 res [] = (0, res) := by
  have hcomplete : Complete newline 0 ([] : List UInt8) := .inl rfl
  rw [ending_of_complete hcomplete, List.append_nil]

/-- Bytes without a line break may be copied before. -/
theorem ending_append {bs : List UInt8} (hmem : newline ∉ bs) (hlen : bs.length ≤ size)
    (res p : List UInt8) :
    ending size res (bs ++ p) = ending (size - bs.length) (res ++ bs) p := by
  simp only [ending, complete_append hmem hlen, List.append_assoc]

theorem readLineLoop_zero (timer : Bool) (rounds : ℕ) (res : List UInt8) (buf : Buffer)
    (k : Kernel) : readLineLoop timer rounds 0 res buf k = ⟨0, res, buf, k⟩ := by
  cases rounds <;> rfl

/-- **The loop.** It copies the next piece of the bytes that are left. -/
theorem Source.readLineLoop (h : Source buf k xs) (hrounds : size ≤ rounds) (timer : Bool)
    (res : List UInt8) :
    let r := readLineLoop timer rounds size res buf k
    (r.err, r.res) = ending size res (piece newline size xs) ∧
      Source r.buf r.kernel (xs.drop (piece newline size xs).length) := by
  induction rounds generalizing size res buf k xs with
  | zero =>
    obtain rfl := Nat.le_zero.mp hrounds
    rw [readLineLoop_zero, piece_zero]
    exact ⟨(ending_zero res).symm, h⟩
  | succ rounds ih =>
    by_cases hsize : size = 0
    · subst hsize
      rw [readLineLoop_zero, piece_zero]
      exact ⟨(ending_zero res).symm, h⟩
    rw [File.readLineLoop, if_neg hsize]
    by_cases hxs : xs = []
    · subst hxs
      have hnot : ¬ Complete newline size ([] : List UInt8) := mt complete_nil_iff.mp hsize
      rw [h.refill_nil, piece_nil, ending, if_neg hnot, List.append_nil]
      by_cases hres : res = []
      · rw [if_neg (fun hne => hne hres), if_pos hres]
        exact ⟨rfl, h⟩
      · rw [if_pos hres, if_neg hres]
        exact ⟨rfl, h⟩
    obtain ⟨buf', k', hrefill, h', hunread⟩ := h.refill hxs timer res
    have hleft := h'.left
    rw [hrefill]
    dsimp only
    rw [bufConsumeLine_fst]
    have hsource := h'.consume size
    by_cases hcomplete : Complete newline size (piece newline size buf'.unread)
    · -- the piece ends in the buffer
      have hpiece : piece newline size xs = piece newline size buf'.unread := by
        rw [← hleft, piece_append_of_complete hcomplete]
      rw [hpiece, ending_of_complete hcomplete]
      split_ifs with hlast
      · exact ⟨rfl, hsource⟩
      · have hlength : (piece newline size buf'.unread).length = size := by
          refine hcomplete.resolve_right fun hnewline => hlast ?_
          rw [List.getLast?_append, hnewline]
          rfl
        rw [hlength, Nat.sub_self, readLineLoop_zero]
        rw [hlength] at hsource
        exact ⟨rfl, hsource⟩
    · -- the buffer is empty, and more bytes are wanted
      obtain ⟨hall, hmem, hlt⟩ := piece_of_not_complete hcomplete
      have hlast : (res ++ buf'.unread).getLast? ≠ some newline := by
        rw [List.getLast?_append_of_ne_nil _ hunread]
        exact fun hnewline => hmem (List.mem_of_getLast? hnewline)
      have hpiece : piece newline size xs =
          buf'.unread ++ piece newline (size - buf'.unread.length) k'.pending := by
        rw [← hleft, piece_append hcomplete]
      have hpos := List.length_pos_of_ne_nil hunread
      have hrest : xs.drop buf'.unread.length = k'.pending := by rw [← hleft, List.drop_left]
      rw [hall, hrest] at hsource
      rw [hall, if_neg hlast, hpiece, ending_append hmem (Nat.le_of_lt hlt), List.length_append,
        ← List.drop_drop, hrest]
      exact ih hsource (by omega) _

/-! ### Calls -/

/-- What a call makes of the bytes `xs` that are left: the next piece of them, with a line break
added when the end of the file has ended it. Without a byte the end of the file is reported. -/
def lineOf (size : ℕ) (xs : List UInt8) : Returned :=
  let p := piece newline (size - 1) xs
  if xs = [] then ⟨rlEof, []⟩
  else if Complete newline (size - 1) p then ⟨p.length, p ++ [0]⟩
  else ⟨p.length + 1, p ++ [newline, 0]⟩

/-- The results of calls with the given sizes, one after the other. -/
def linesOf : List ℕ → List UInt8 → List Returned
  | [], _ => []
  | size :: sizes, xs =>
    lineOf size xs :: linesOf sizes (xs.drop (piece newline (size - 1) xs).length)

/-- The pieces that they take. -/
def piecesOf : List ℕ → List UInt8 → List (List UInt8)
  | [], _ => []
  | size :: sizes, xs =>
    piece newline (size - 1) xs :: piecesOf sizes (xs.drop (piece newline (size - 1) xs).length)

theorem lineOf_nil (size : ℕ) : lineOf size [] = ⟨rlEof, []⟩ := rfl

theorem lineOf_of_complete (hxs : xs ≠ [])
    (h : Complete newline (size - 1) (piece newline (size - 1) xs)) :
    lineOf size xs =
      ⟨(piece newline (size - 1) xs).length, piece newline (size - 1) xs ++ [0]⟩ := by
  rw [lineOf, if_neg hxs, if_pos h]

theorem lineOf_of_not_complete (hxs : xs ≠ [])
    (h : ¬ Complete newline (size - 1) (piece newline (size - 1) xs)) :
    lineOf size xs =
      ⟨(piece newline (size - 1) xs).length + 1, piece newline (size - 1) xs ++ [newline, 0]⟩ := by
  rw [lineOf, if_neg hxs, if_neg h]

/-- The length of a string has been returned, and the string is in the caller's array, of `size`
bytes, with a zero byte behind it. That is the first one if the file has none. -/
def Fits (stream : List UInt8) (size : ℕ) (r : Returned) : Prop :=
  ∃ s : List UInt8, r = ⟨s.length, s ++ [0]⟩ ∧ s ≠ [] ∧ s.length < size ∧
    (0 ∉ stream → cString r.res = s)

theorem Fits.mono {xs' : List UInt8} {r : Returned} (h : Fits xs size r) (hsub : xs ⊆ xs') :
    Fits xs' size r := by
  obtain ⟨s, hr, hne, hlen, hzero⟩ := h
  exact ⟨s, hr, hne, hlen, fun hmem => hzero fun h => hmem (hsub h)⟩

theorem fits_lineOf (hsize : 2 ≤ size) (hxs : xs ≠ []) : Fits xs size (lineOf size xs) := by
  have hpre := isPrefix_piece newline (size - 1) xs
  have hle := length_piece_le newline (size - 1) xs
  by_cases hcomplete : Complete newline (size - 1) (piece newline (size - 1) xs)
  · have hline := lineOf_of_complete hxs hcomplete
    refine ⟨_, hline, piece_ne_nil (by omega) hxs, by omega, fun hzero => ?_⟩
    rw [hline]
    exact cString_of_not_mem fun hmem => hzero (hpre.subset hmem)
  · obtain ⟨hall, -, hlt⟩ := piece_of_not_complete hcomplete
    have hline : lineOf size xs = ⟨(xs ++ [newline]).length, xs ++ [newline] ++ [0]⟩ := by
      rw [lineOf_of_not_complete hxs hcomplete, hall]
      simp
    refine ⟨_, hline, by simp, ?_, fun hzero => ?_⟩
    · rw [List.length_append, List.length_singleton]
      omega
    · rw [hline]
      exact cString_of_not_mem (by simpa [newline] using hzero)

/-- `read_line` hands out what the loop has made of a piece. -/
theorem returned_ending (hsize : 2 ≤ size) (xs : List UInt8) :
    (if (ending (size - 1) [] (piece newline (size - 1) xs)).1 ≠ 0 then
        ⟨(ending (size - 1) [] (piece newline (size - 1) xs)).1,
          (ending (size - 1) [] (piece newline (size - 1) xs)).2⟩
      else ⟨(ending (size - 1) [] (piece newline (size - 1) xs)).2.length,
        (ending (size - 1) [] (piece newline (size - 1) xs)).2 ++ [0]⟩) = lineOf size xs := by
  by_cases hxs : xs = []
  · have hnot : ¬ Complete newline (size - 1) ([] : List UInt8) := by
      rw [complete_nil_iff]
      omega
    rw [hxs, piece_nil, ending, if_neg hnot]
    rfl
  · have hp : piece newline (size - 1) xs ≠ [] := piece_ne_nil (by omega) hxs
    by_cases hcomplete : Complete newline (size - 1) (piece newline (size - 1) xs)
    · rw [ending_of_complete hcomplete, lineOf_of_complete hxs hcomplete]
      rfl
    · rw [ending, if_neg hcomplete, List.nil_append, if_neg hp,
        lineOf_of_not_complete hxs hcomplete]
      simp

/-- **One call.** -/
theorem Source.readLine (h : Source buf k xs) (hsize : 2 ≤ size) (timeout : ℤ) :
    let r := readLine timeout size buf k
    r.1 = lineOf size xs ∧
      Source r.2.1 r.2.2 (xs.drop (piece newline (size - 1) xs).length) := by
  have hpos : ¬ size = 0 := by omega
  obtain ⟨hending, hsource⟩ := h.readLineLoop (Nat.le_refl (size - 1)) (timeout ≠ -1) []
  have hreturned := returned_ending hsize xs
  rw [← hending] at hreturned
  rw [File.readLine, if_neg hpos]
  exact ⟨hreturned, hsource⟩

/-- **A sequence of calls.** -/
theorem Source.readLines {sizes : List ℕ} (h : Source buf k xs)
    (hsizes : ∀ size ∈ sizes, 2 ≤ size) (timeout : ℤ) :
    let r := readLines timeout sizes buf k
    r.1 = linesOf sizes xs ∧ (piecesOf sizes xs).flatten ++ (r.2.1.unread ++ r.2.2.pending) = xs ∧
      List.Forall₂ (fun size r => r = ⟨rlEof, []⟩ ∨ Fits xs size r) sizes r.1 := by
  induction sizes generalizing buf k xs with
  | nil => exact ⟨rfl, h.left, .nil⟩
  | cons size sizes ih =>
    obtain ⟨hsize, hrest⟩ := List.forall_mem_cons.mp hsizes
    obtain ⟨hline, hsource⟩ := h.readLine hsize timeout
    obtain ⟨hlines, hpieces, hforall⟩ := ih hsource hrest
    have hfits : lineOf size xs = ⟨rlEof, []⟩ ∨ Fits xs size (lineOf size xs) := by
      by_cases hxs : xs = []
      · exact .inl (hxs ▸ lineOf_nil size)
      · exact .inr (fits_lineOf hsize hxs)
    refine ⟨?_, ?_, .cons (hline ▸ hfits) (hforall.imp fun _ _ hr => hr.imp_right fun hr => ?_)⟩
    · exact congrArg₂ List.cons hline hlines
    · rw [piecesOf, List.flatten_cons, List.append_assoc]
      refine Eq.trans (congrArg _ hpieces) ?_
      rw [piece_append_drop]
    · exact hr.mono (List.drop_subset _ _)

/-- **The results do not depend on the chunks.** However the kernel splits the bytes of the file,
and whatever the capacity of the buffer is, blocking calls return what the bytes of the file
determine. They take the bytes in order, none twice, and what they have not taken is left for later
calls. Each of them reports the end of the file or returns a string that fits. -/
theorem readLines_eq (mem stream : List UInt8) (d : Chunking mem.length stream) (sizes : List ℕ)
    (hsizes : ∀ size ∈ sizes, 2 ≤ size) :
    let r := readLines (-1) sizes (makeBuf mem) (kernelOf d)
    r.1 = linesOf sizes stream ∧
      (piecesOf sizes stream).flatten ++ (r.2.1.unread ++ r.2.2.pending) = stream ∧
      List.Forall₂ (fun size r => r = ⟨rlEof, []⟩ ∨ Fits stream size r) sizes r.1 :=
  (source_makeBuf d).readLines hsizes (-1)

/-- A line in two chunks, and a byte without a line break. -/
def unendedFile : Chunking 2 ([104, 105, 0x0A, 33] : List UInt8) where
  chunks := [[104], [105, 0x0A], [33]]
  ne_nil := by decide
  length_le := by decide
  flatten_eq := rfl

theorem readLines_unendedFile :
    (readLines (-1) [8, 8, 8] (makeBuf [0, 0]) (kernelOf unendedFile)).1 =
      [⟨3, [104, 105, 0x0A, 0]⟩, ⟨2, [33, 0x0A, 0]⟩, ⟨rlEof, []⟩] :=
  (readLines_eq [0, 0] _ unendedFile [8, 8, 8] (by decide)).1.trans (by decide)

/-! ### What there is left to read -/

/-- A bound for the bytes that can still be copied and the calls of `read` that can still deliver
some. -/
def supply (buf : Buffer) (k : Kernel) : ℕ :=
  buf.len + k.pending.length + k.reads.length

/-- The result of `read_line` is an error, the end of the file or a timeout. -/
def Ends (ret : ℤ) : Prop := ret = rlFail ∨ ret = rlEof ∨ ret = rlTimeout

instance : DecidablePred Ends := fun _ => inferInstanceAs (Decidable (_ ∨ _ ∨ _))

theorem Ends.ne_zero {ret : ℤ} (h : Ends ret) : ret ≠ 0 := by
  rintro rfl
  exact absurd h (by decide)

/-- A call of `read` takes what it delivers from the supply, and one more if it delivers
something. -/
theorem supply_read (buf : Buffer) (k : Kernel) :
    supply buf k.read.2 + k.read.1.delivered.length ≤ supply buf k ∧
      (k.read.1.delivered ≠ [] →
        supply buf k.read.2 + k.read.1.delivered.length < supply buf k) := by
  cases hreads : k.reads with
  | nil =>
    have hread : k.read = (.bytes [], k) := by rw [Kernel.read, hreads]
    rw [hread]
    exact ⟨Nat.le_refl _, fun hne => absurd rfl hne⟩
  | cons r rs =>
    have hread : k.read = (r, { k with reads := rs }) := by rw [Kernel.read, hreads]
    have hsupply : supply buf k =
        supply buf { k with reads := rs } + r.delivered.length + 1 := by
      rw [supply, supply, Kernel.pending, Kernel.pending, hreads, List.flatMap_cons,
        List.length_append, List.length_cons]
      dsimp only
      omega
    rw [hread, hsupply]
    exact ⟨Nat.le_succ _, fun _ => Nat.lt_succ_self _⟩

/-- Waiting ends with an error, or with a call of `read`. -/
theorem awaitInput_cases (timer : Bool) (buf : Buffer) (k : Kernel) :
    (∃ err buf' k', awaitInput timer buf k = (.error err, buf', k') ∧ Ends err ∧
        supply buf' k' ≤ supply buf k) ∨
      ∃ k₁, supply buf k₁ = supply buf k ∧
        awaitInput timer buf k = (.ok k₁.read.1, buf.store k₁.read.1.delivered, k₁.read.2) := by
  have hselect : supply buf k.select.2 = supply buf k := by
    rw [Kernel.select]
    split <;> rfl
  have hread := (Nat.le_add_right _ _).trans (supply_read buf k.select.2).1
  rw [awaitInput]
  split_ifs
  · dsimp only
    split
    · exact .inl ⟨_, _, _, rfl, .inl rfl, hselect.le⟩
    · exact .inl ⟨_, _, _, rfl, .inr (.inr rfl), hselect.le⟩
    · exact .inl ⟨_, _, _, rfl, .inr (.inr rfl), hread.trans hselect.le⟩
    · exact .inr ⟨_, hselect, rfl⟩
  · exact .inr ⟨k, rfl, rfl⟩

/-- The first half of the loop does not add to the supply. If it leaves the buffer empty, it has
taken something. -/
theorem refill_cases (timer : Bool) (res : List UInt8) (buf : Buffer) (k : Kernel) :
    (∃ r, refill timer res buf k = .error r ∧ supply r.buf r.kernel ≤ supply buf k ∧
        (Ends r.err ∨ r.err = 0 ∧ res ≠ [])) ∨
      ∃ buf' k', refill timer res buf k = .ok (buf', k') ∧ supply buf' k' ≤ supply buf k ∧
        (buf'.len = 0 → supply buf' k' < supply buf k) := by
  unfold refill
  by_cases hlen : buf.len = 0
  · rw [if_neg (not_not_intro hlen)]
    rcases awaitInput_cases timer buf k with
      ⟨err, buf', k', hawait, hends, hle⟩ | ⟨k₁, hsupply, hawait⟩
    · rw [hawait]
      exact .inl ⟨_, rfl, hle, .inl hends⟩
    · obtain ⟨hle, hlt⟩ := supply_read buf k₁
      have hstore : supply (buf.store k₁.read.1.delivered) k₁.read.2 ≤ supply buf k :=
        ((Nat.le_add_right _ _).trans hle).trans hsupply.le
      rw [hawait]
      cases hread : k₁.read.1 with
      | failed =>
        rw [hread] at hstore
        exact .inl ⟨_, rfl, hstore, .inl (.inl rfl)⟩
      | bytes bs =>
        rw [hread] at hstore hle hlt
        dsimp only
        split_ifs with hbs hres
        · exact .inl ⟨_, rfl, hstore, .inr ⟨rfl, hres⟩⟩
        · exact .inl ⟨_, rfl, hstore, .inl (.inr (.inl rfl))⟩
        · -- what has been delivered was in the supply
          have hne : bs ≠ [] := fun hnil => hbs (List.length_eq_zero_iff.mpr hnil)
          have hfilled : supply ((buf.store bs).restart bs.length) k₁.read.2 <
              supply buf k := by
            have hmin : ((buf.store bs).restart bs.length).len ≤ bs.length := Nat.min_le_left _ _
            have hlt' : supply buf k₁.read.2 + bs.length < supply buf k₁ := hlt hne
            unfold supply at *
            omega
          exact .inr ⟨_, _, rfl, hfilled.le, fun _ => hfilled⟩
  · rw [if_pos hlen]
    exact .inr ⟨buf, k, rfl, Nat.le_refl _, fun hzero => absurd hzero hlen⟩

/-- What is copied is taken from the supply. -/
theorem supply_bufConsumeLine (buf : Buffer) (k : Kernel) (hsize : size ≠ 0) :
    supply (bufConsumeLine buf size).2 k ≤ supply buf k ∧
      (buf.len ≠ 0 → supply (bufConsumeLine buf size).2 k < supply buf k) := by
  have hlen : (bufConsumeLine buf size).2.len =
      buf.len - (piece newline size buf.unread).length := by
    rw [← length_unread, unread_bufConsumeLine, List.length_drop, length_unread]
  rw [supply, supply, hlen]
  refine ⟨by omega, fun hne => ?_⟩
  have hpos : 0 < (piece newline size buf.unread).length :=
    List.length_pos_of_ne_nil (piece_ne_nil (Nat.pos_of_ne_zero hsize) fun hnil => hne (by
      rw [← length_unread, hnil, List.length_nil]))
  omega

/-- **The loop** reports an end, or takes something from the supply, unless it has nothing to do or
has been entered with bytes. -/
theorem supply_readLineLoop (timer : Bool) (rounds size : ℕ) (res : List UInt8) (buf : Buffer)
    (k : Kernel) :
    let r := readLineLoop timer rounds size res buf k
    supply r.buf r.kernel ≤ supply buf k ∧ (Ends r.err ∨ r.err = 0 ∧
      (supply r.buf r.kernel < supply buf k ∨ res ≠ [] ∨ size = 0 ∨ rounds = 0)) := by
  induction rounds generalizing size res buf k with
  | zero => exact ⟨Nat.le_refl _, .inr ⟨rfl, .inr (.inr (.inr rfl))⟩⟩
  | succ rounds ih =>
    rw [readLineLoop]
    by_cases hsize : size = 0
    · rw [if_pos hsize]
      exact ⟨Nat.le_refl _, .inr ⟨rfl, .inr (.inr (.inl hsize))⟩⟩
    rw [if_neg hsize]
    rcases refill_cases timer res buf k with
      ⟨r, hrefill, hle, hends⟩ | ⟨buf', k', hrefill, hle, hlt⟩
    · rw [hrefill]
      exact ⟨hle, hends.imp id fun h => ⟨h.1, .inr (.inl h.2)⟩⟩
    · obtain ⟨hconsume, hconsumed⟩ := supply_bufConsumeLine buf' k' hsize
      have hless : supply (bufConsumeLine buf' size).2 k' < supply buf k := by
        by_cases hlen : buf'.len = 0
        · exact hconsume.trans_lt (hlt hlen)
        · exact (hconsumed hlen).trans_le hle
      rw [hrefill]
      dsimp only
      split_ifs
      · exact ⟨hless.le, .inr ⟨rfl, .inl hless⟩⟩
      · obtain ⟨hrest, hends⟩ := ih (size - (bufConsumeLine buf' size).1.length)
          (res ++ (bufConsumeLine buf' size).1) (bufConsumeLine buf' size).2 k'
        have hrest' := hrest.trans_lt hless
        exact ⟨hrest'.le, hends.imp id fun h => ⟨h.1, .inl hrest'⟩⟩

/-- **A call** reports an end, or takes something from the supply, whatever the kernel does. -/
theorem supply_readLine (hsize : 2 ≤ size) (timeout : ℤ) (buf : Buffer) (k : Kernel) :
    let r := readLine timeout size buf k
    Ends r.1.ret ∨ supply r.2.1 r.2.2 < supply buf k := by
  obtain ⟨-, hends⟩ := supply_readLineLoop (timeout ≠ -1) (size - 1) (size - 1) [] buf k
  rw [readLine, if_neg (by omega)]
  dsimp only
  rcases hends with hends | ⟨-, hless | hne | hzero | hzero⟩
  · rw [if_pos hends.ne_zero]
    exact .inl hends
  · exact .inr hless
  · exact absurd rfl hne
  · omega
  · omega

end OsTasks.File
