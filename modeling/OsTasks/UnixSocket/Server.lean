import OsTasks.UnixSocket.WriteAll

/-!
# The session of the server

The server accepts one client, and writes what the client sends to descriptor `0` in upper case,
until the client has sent everything. Its output is right for every text of the client exactly if
no `write` accepts a part of a chunk only.

The texts of `perror` are left out.

## Main definitions

* `toUpperCase`, `serverLoop`, `serverMain`: the functions of the source.
* `Round.Delivers`: what a round does when nothing fails.

## Main results

* `serverLoop_echoes_iff`: when the output is right.
* `serverMain_session`: how the program ends, and when its output is right.
-/

namespace OsTasks.UnixSocket

/-! ### The functions of the source -/

/-- `toupper`, in the C locale. -/
def toUpper (b : UInt8) : UInt8 := if 0x61 ≤ b ∧ b ≤ 0x7A then b - 0x20 else b

def toUpperCase (buf : List UInt8) : List UInt8 := buf.map toUpper

/-- What `read` returns. -/
inductive ReadResult
  | bytes (bs : List UInt8)
  | failed (e : Errno)
  deriving DecidableEq

/-- A round of the loop: the result of `read`, and what the calls of `write` return after it. -/
structure Round where
  read : ReadResult
  writes : List WriteResult
  deriving DecidableEq

/-- The line break. -/
def newline : UInt8 := 0x0A

/-- The loop of `main`: what descriptor `0` accepts. There is no result as long as the loop goes on,
or a call has not returned. -/
def serverLoop : List Round → Option (List UInt8)
  | [] => none
  | ⟨.bytes [], []⟩ :: _ => none
  | ⟨.bytes [], .taken n :: _⟩ :: _ => some ([newline].take n)
  | ⟨.bytes [], .failed _ :: _⟩ :: _ => some []
  | ⟨.bytes (b :: bs), writes⟩ :: rounds =>
    let run := Server.writeAll (b :: bs).length writes
    let output := acceptedBytes (toUpperCase (b :: bs)) run.calls
    match run.ret with
    | none => none
    | some ret => if ret = -1 then some output else (serverLoop rounds).map (output ++ ·)
  | ⟨.failed e, _⟩ :: rounds => if e = .eagain ∨ e = .eintr then serverLoop rounds else some []

/-- What the system answers before the loop. -/
structure ServerEnv where
  socket : Option ℕ
  bind : Bool
  listen : Bool
  accept : Option ℕ

/-- A call of `close_unix_socket`. -/
inductive Cleanup
  | close (fd : ℕ)
  | unlink
  deriving DecidableEq

/-- `close_unix_socket`, with a path or without one. -/
def closeUnixSocket (fd : ℕ) (path : Bool) : List Cleanup :=
  .close fd :: if path then [.unlink] else []

/-- The exit code, what descriptor `0` has accepted, and what has been cleaned up. -/
structure Outcome where
  exit : ℕ
  output : List UInt8
  cleanup : List Cleanup
  deriving DecidableEq

/-- `main` of the server. -/
def serverMain (env : ServerEnv) (rounds : List Round) : Option Outcome :=
  match env.socket with
  | none => some ⟨1, [], []⟩
  | some listener =>
    if !env.bind then some ⟨1, [], closeUnixSocket listener false⟩
    else if !env.listen then some ⟨1, [], closeUnixSocket listener true⟩
    else
      match env.accept with
      | none => some ⟨1, [], closeUnixSocket listener true⟩
      | some client => (serverLoop rounds).map fun output =>
        ⟨0, output, closeUnixSocket client false ++ closeUnixSocket listener true⟩

/-- The descriptor that a call closes. -/
def Cleanup.fd? : Cleanup → Option ℕ
  | .close fd => some fd
  | .unlink => none

/-- The client, if the calls before the loop succeed. -/
def ServerEnv.client (env : ServerEnv) : Option ℕ :=
  if env.socket.isSome ∧ env.bind ∧ env.listen then env.accept else none

/-- The descriptors that `socket` and `accept` open. -/
def ServerEnv.opened (env : ServerEnv) : List ℕ := env.socket.toList ++ env.client.toList

/-! ### Rounds -/

/-- What the client sends in a round. -/
def Round.received (r : Round) : List UInt8 :=
  match r.read with
  | .bytes bs => bs
  | .failed _ => []

/-- The text of the client. -/
def received (rounds : List Round) : List UInt8 := rounds.flatMap Round.received

/-- A round without the bytes that are read. -/
def Round.shape (r : Round) : (ℕ ⊕ Errno) × List WriteResult :=
  (match r.read with
    | .bytes bs => .inl bs.length
    | .failed e => .inr e, r.writes)

/-- The round reads bytes and `write_all` succeeds, where every count is positive and at most what
is offered; or `read` is interrupted. -/
def Round.Delivers (r : Round) : Prop :=
  match r.read with
  | .bytes bs => 0 < bs.length ∧ (Server.writeAll bs.length r.writes).ret = some 0 ∧
      ∀ n, .taken n ∈ r.writes → 0 < n ∧ n ≤ bs.length
  | .failed e => e = .eagain ∨ e = .eintr

/-- The first `write` of the round that is not interrupted accepts all bytes. -/
def Round.Whole (r : Round) : Prop :=
  match r.read with
  | .bytes bs => FirstWhole bs.length r.writes
  | .failed _ => True

/-- The client has sent everything, and the line break is written. -/
def endOfInput : Round := ⟨.bytes [], [.taken 1]⟩

/-! ### What is accepted -/

variable {buf bs : List UInt8} {len written : ℕ} {results writes : List WriteResult}
  {r r' : Round} {rounds rounds' : List Round}

theorem delivers_congr (hshape : r.shape = r'.shape) : r.Delivers ↔ r'.Delivers := by
  obtain ⟨read, writes⟩ := r
  obtain ⟨read', writes'⟩ := r'
  cases read <;> cases read' <;> simp_all [Round.shape, Round.Delivers]

theorem whole_congr (hshape : r.shape = r'.shape) : r.Whole ↔ r'.Whole := by
  obtain ⟨read, writes⟩ := r
  obtain ⟨read', writes'⟩ := r'
  cases read <;> cases read' <;> simp_all [Round.shape, Round.Whole]

/-- As long as bytes are missing, bytes from the start of the buffer are accepted next. -/
theorem exists_accepted (hwritten : written < len)
    (hret : (writeLoop len results written).ret = some 0) :
    ∃ m rest, results.find? (fun res => !res.interrupted) = some (.taken m) ∧
      rest ⊆ results ∧ (writeLoop len rest (written + m)).ret = some 0 ∧
      ∀ buf, acceptedBytes buf (writeLoop len results written).calls =
        buf.take m ++ acceptedBytes buf (writeLoop len rest (written + m)).calls := by
  induction results with
  | nil =>
    rw [writeLoop, if_pos hwritten] at hret
    cases hret
  | cons res results ih =>
    cases res with
    | failed e =>
      rw [writeLoop, if_pos hwritten] at hret
      split_ifs at hret with he
      · obtain ⟨m, rest, hfind, hsub, hrest, haccepted⟩ := ih hret
        have hsub := List.Subset.trans hsub (List.subset_cons_self (.failed e) results)
        refine ⟨m, rest, ?_, hsub, hrest, fun buf => ?_⟩
        · rw [List.find?_cons_of_neg (by simpa using (interrupted_failed e).mpr he), hfind]
        · rw [← haccepted, writeLoop, if_pos hwritten, if_pos he]
          rfl
      · cases hret
    | taken n =>
      rw [writeLoop, if_pos hwritten] at hret
      refine ⟨n, results, ?_, List.subset_cons_self _ _, hret, fun buf => ?_⟩
      · rw [List.find?_cons_of_pos (by simp [interrupted_taken])]
      · rw [writeLoop, if_pos hwritten]
        rfl

/-- If the first call accepts a part of the buffer only, its first byte is accepted again. -/
theorem exists_repeated (hret : (Server.writeAll len results).ret = some 0)
    (hresults : ∀ n, .taken n ∈ results → 0 < n ∧ n ≤ len) (hnot : ¬ FirstWhole len results) :
    ∃ n, 0 < n ∧ n < len ∧ ∀ buf : List UInt8, buf.length = len →
      (acceptedBytes buf (Server.writeAll len results).calls)[n]? = buf[0]? := by
  obtain ⟨n, hn⟩ := not_forall.mp hnot
  obtain ⟨hfind, hn⟩ := Classical.not_imp.mp hn
  have hn := Nat.not_le.mp hn
  have hpos : 0 < len := Nat.zero_lt_of_lt hn
  obtain ⟨m, rest, hfind', hsub, hrest, haccepted⟩ := exists_accepted hpos hret
  obtain rfl : n = m := WriteResult.taken.inj (Option.some.inj (hfind.symm.trans hfind'))
  rw [Nat.zero_add] at hrest haccepted
  obtain ⟨m, rest', hfind'', -, -, haccepted'⟩ := exists_accepted hn hrest
  have hm := (hresults m (hsub (List.mem_of_find?_eq_some hfind''))).1
  have hn₀ := (hresults n (List.mem_of_find?_eq_some hfind)).1
  refine ⟨n, hn₀, hn, fun buf hbuf => ?_⟩
  have hlen : (buf.take n).length = n := by
    rw [List.length_take]
    omega
  have hlen' : 0 < (buf.take m).length := by
    rw [List.length_take]
    omega
  let later := acceptedBytes buf (writeLoop len rest' (n + m)).calls
  calc (acceptedBytes buf (writeLoop len results 0).calls)[n]?
      = (buf.take n ++ (buf.take m ++ later))[n]? := by rw [haccepted, haccepted']
    _ = (buf.take m ++ later)[0]? := by
        rw [List.getElem?_append_right (Nat.le_of_eq hlen), hlen, Nat.sub_self]
    _ = buf[0]? := by
        rw [List.getElem?_append_left hlen', List.getElem?_take_of_lt hm]

/-! ### The loop -/

/-- A round that reads bytes and writes them. -/
theorem serverLoop_bytes (hpos : 0 < bs.length)
    (hret : (Server.writeAll bs.length writes).ret = some 0) (rounds : List Round) :
    serverLoop (⟨.bytes bs, writes⟩ :: rounds) = (serverLoop rounds).map
      (acceptedBytes (toUpperCase bs) (Server.writeAll bs.length writes).calls ++ ·) := by
  obtain ⟨b, bs, rfl⟩ := List.exists_cons_of_length_pos hpos
  rw [serverLoop, hret]
  rfl

theorem acceptedBytes_of_whole (hpos : 0 < bs.length)
    (hret : (Server.writeAll bs.length writes).ret = some 0)
    (hwrites : ∀ n, .taken n ∈ writes → 0 < n ∧ n ≤ bs.length)
    (hwhole : FirstWhole bs.length writes) :
    acceptedBytes (toUpperCase bs) (Server.writeAll bs.length writes).calls = toUpperCase bs := by
  have honce : WritesOnce (toUpperCase bs) bs.length (writeLoop bs.length writes 0) :=
    (writesOnce_writeLoop_iff hpos hwrites).mpr hwhole
  calc acceptedBytes (toUpperCase bs) (writeLoop bs.length writes 0).calls
      = (toUpperCase bs).take bs.length := honce.whole hret
    _ = toUpperCase bs := List.take_of_length_le (by simp [toUpperCase])

/-- **A whole round** writes what it reads, in upper case. -/
theorem serverLoop_cons (hr : r.Delivers) (hwhole : r.Whole) (rounds : List Round) :
    serverLoop (r :: rounds) = (serverLoop rounds).map (toUpperCase r.received ++ ·) := by
  obtain ⟨read, writes⟩ := r
  cases read with
  | bytes bs =>
    obtain ⟨hpos, hret, hwrites⟩ := hr
    rw [serverLoop_bytes hpos hret, acceptedBytes_of_whole hpos hret hwrites hwhole]
    rfl
  | failed e =>
    have he : e = .eagain ∨ e = .eintr := hr
    rw [serverLoop, if_pos he]
    simp [Round.received, toUpperCase]

theorem toUpperCase_received_cons (r : Round) (rounds : List Round) :
    toUpperCase (received (r :: rounds)) =
      toUpperCase r.received ++ toUpperCase (received rounds) := by
  rw [received, List.flatMap_cons, toUpperCase, List.map_append]
  rfl

/-- **The output is right** if every round is whole. -/
theorem serverLoop_of_whole (hdelivers : ∀ r ∈ rounds, r.Delivers)
    (hwhole : ∀ r ∈ rounds, r.Whole) :
    serverLoop (rounds ++ [endOfInput]) = some (toUpperCase (received rounds) ++ [newline]) := by
  induction rounds with
  | nil => rfl
  | cons r rounds ih =>
    obtain ⟨hr, hrounds⟩ := List.forall_mem_cons.mp hdelivers
    obtain ⟨hrWhole, hwhole⟩ := List.forall_mem_cons.mp hwhole
    rw [List.cons_append, serverLoop_cons hr hrWhole, ih hrounds hwhole, Option.map_some,
      toUpperCase_received_cons, List.append_assoc]

/-- A text in which one byte is not the first one. -/
def oneOther (len n : ℕ) : List UInt8 := (List.replicate len 0x41).set n 0x42

theorem getElem?_toUpperCase_oneOther {n : ℕ} (hpos : 0 < n) (hn : n < len) :
    (toUpperCase (oneOther len n))[n]? = some 0x42 ∧
      (toUpperCase (oneOther len n))[0]? = some 0x41 := by
  have hlen : 0 < len := Nat.zero_lt_of_lt hn
  have hA : toUpper 0x41 = 0x41 := by decide
  have hB : toUpper 0x42 = 0x42 := by decide
  constructor
  · simp [toUpperCase, oneOther, hn, hB]
  · rw [toUpperCase, oneOther, List.getElem?_map, List.getElem?_set_ne (by omega),
      List.getElem?_replicate_of_lt hlen, Option.map_some, hA]

theorem getElem?_append_of_some {n : ℕ} {b : UInt8} (hb : bs[n]? = some b) (bs' : List UInt8) :
    (bs ++ bs')[n]? = some b := by
  rw [List.getElem?_append_left (List.getElem?_eq_some_iff.mp hb).1, hb]

/-- **A round that is not whole** reads a text that is not written. -/
theorem exists_wrong_output (hr : r.Delivers) (hnot : ¬ r.Whole) :
    ∃ r' : Round, r'.shape = r.shape ∧ ∀ rounds text,
      serverLoop (r' :: rounds) ≠ some (toUpperCase r'.received ++ text) := by
  obtain ⟨read, writes⟩ := r
  cases read with
  | failed e => exact absurd trivial hnot
  | bytes bs =>
    obtain ⟨hpos, hret, hwrites⟩ := hr
    obtain ⟨n, hn₀, hn, hrepeated⟩ := exists_repeated hret hwrites hnot
    have hlen : (oneOther bs.length n).length = bs.length := by simp [oneOther]
    obtain ⟨hother, hfirst⟩ := getElem?_toUpperCase_oneOther hn₀ hn
    refine ⟨⟨.bytes (oneOther bs.length n), writes⟩, ?_, fun rounds text hout => ?_⟩
    · simp only [Round.shape, hlen]
    · rw [serverLoop_bytes (by rwa [hlen]) (by rwa [hlen]), hlen, Option.map_eq_some_iff] at hout
      obtain ⟨output, -, hout⟩ := hout
      -- The text has another byte at `n`, but the first one has been written there.
      have hwritten := hrepeated (toUpperCase (oneOther bs.length n)) (by simp [toUpperCase, hlen])
      have hwrong := getElem?_append_of_some (hwritten.trans hfirst) output
      have hright := getElem?_append_of_some hother text
      exact absurd ((hwrong.symm.trans (congrArg (·[n]?) hout)).trans hright) (by decide)

/-- **When the output is right.** If every round delivers, the upper case of the text and a line
break are written, whatever the text is, exactly if every round is whole. -/
theorem serverLoop_echoes_iff (hdelivers : ∀ r ∈ rounds, r.Delivers) :
    (∀ rounds', rounds'.map Round.shape = rounds.map Round.shape →
      serverLoop (rounds' ++ [endOfInput]) =
        some (toUpperCase (received rounds') ++ [newline])) ↔ ∀ r ∈ rounds, r.Whole := by
  refine ⟨fun hall => ?_, fun hwhole rounds' hshape => ?_⟩
  · induction rounds with
    | nil => exact fun r hr => absurd hr List.not_mem_nil
    | cons r rounds ih =>
      obtain ⟨hr, hrounds⟩ := List.forall_mem_cons.mp hdelivers
      have hwhole : r.Whole := by
        by_contra hnot
        obtain ⟨r', hshape, hwrong⟩ := exists_wrong_output hr hnot
        refine hwrong (rounds ++ [endOfInput]) (toUpperCase (received rounds) ++ [newline]) ?_
        rw [← List.append_assoc, ← toUpperCase_received_cons]
        exact hall (r' :: rounds) (by rw [List.map_cons, hshape, List.map_cons])
      refine List.forall_mem_cons.mpr ⟨hwhole, ih hrounds fun rounds' hshape => ?_⟩
      have hright := hall (r :: rounds') (by rw [List.map_cons, hshape, List.map_cons])
      rw [List.cons_append, serverLoop_cons hr hwhole, toUpperCase_received_cons,
        List.append_assoc] at hright
      exact Option.map_injective (fun _ _ => List.append_cancel_left) hright
  · refine serverLoop_of_whole (fun r' hr' => ?_) fun r' hr' => ?_
    · obtain ⟨r, hr, hrr'⟩ := List.mem_map.mp (hshape ▸ List.mem_map_of_mem hr')
      exact (delivers_congr hrr').mp (hdelivers r hr)
    · obtain ⟨r, hr, hrr'⟩ := List.mem_map.mp (hshape ▸ List.mem_map_of_mem hr')
      exact (whole_congr hrr').mp (hwhole r hr)

/-! ### The whole program -/

/-- With a client, the program runs the loop. -/
theorem serverMain_of_client {env : ServerEnv} {client : ℕ} (hclient : env.client = some client) :
    ∃ listener, env.socket = some listener ∧ ∀ rounds,
      serverMain env rounds = (serverLoop rounds).map fun output =>
        ⟨0, output, closeUnixSocket client false ++ closeUnixSocket listener true⟩ := by
  rw [ServerEnv.client] at hclient
  split_ifs at hclient with hready
  obtain ⟨hsocket, hbind, hlisten⟩ := hready
  obtain ⟨listener, hlistener⟩ := Option.isSome_iff_exists.mp hsocket
  refine ⟨listener, hlistener, fun rounds => ?_⟩
  simp [serverMain, hlistener, hbind, hlisten, hclient]

/-- **Cleaning up.** -/
theorem serverMain_cleanup {env : ServerEnv} {out : Outcome}
    (hout : serverMain env rounds = some out) :
    (out.cleanup.filterMap Cleanup.fd?).Perm env.opened ∧
      out.cleanup.count .unlink = (if env.socket.isSome ∧ env.bind then 1 else 0) ∧
      (out.exit = 0 ↔ env.client.isSome) := by
  obtain ⟨socket, bind, listen, accept⟩ := env
  cases socket with
  | none =>
    cases hout
    simp [ServerEnv.opened, ServerEnv.client]
  | some listener =>
    cases bind with
    | false =>
      cases hout
      simp [ServerEnv.opened, ServerEnv.client, closeUnixSocket, Cleanup.fd?]
    | true =>
      cases listen with
      | false =>
        cases hout
        simp [ServerEnv.opened, ServerEnv.client, closeUnixSocket, Cleanup.fd?]
      | true =>
        cases accept with
        | none =>
          cases hout
          simp [ServerEnv.opened, ServerEnv.client, closeUnixSocket, Cleanup.fd?]
        | some client =>
          obtain ⟨output, -, rfl⟩ := Option.map_eq_some_iff.mp hout
          -- The client is closed before the listener.
          exact ⟨List.Perm.swap _ _ _, rfl, by simp [ServerEnv.client]⟩

/-- **The session of the server.** However it ends, it closes every descriptor that it has opened
once, and removes the socket exactly if it has bound it; its exit code is `0` exactly if a client
has been accepted. With a client and rounds that deliver, it writes the upper case of the text and
a line break, whatever the text is, exactly if every round is whole. -/
theorem serverMain_session (env : ServerEnv) (rounds : List Round) :
    (∀ out, serverMain env rounds = some out →
      (out.cleanup.filterMap Cleanup.fd?).Perm env.opened ∧
      out.cleanup.count .unlink = (if env.socket.isSome ∧ env.bind then 1 else 0) ∧
      (out.exit = 0 ↔ env.client.isSome)) ∧
    (env.client.isSome → (∀ r ∈ rounds, r.Delivers) →
      ((∀ rounds', rounds'.map Round.shape = rounds.map Round.shape →
        (serverMain env (rounds' ++ [endOfInput])).map Outcome.output =
          some (toUpperCase (received rounds') ++ [newline])) ↔ ∀ r ∈ rounds, r.Whole)) := by
  refine ⟨fun out hout => serverMain_cleanup hout, fun hclient hdelivers => ?_⟩
  obtain ⟨client, hclient⟩ := Option.isSome_iff_exists.mp hclient
  obtain ⟨listener, -, hmain⟩ := serverMain_of_client hclient
  have houtput (rounds : List Round) :
      (serverMain env rounds).map Outcome.output = serverLoop rounds := by
    rw [hmain, Option.map_map]
    exact Option.map_id'
  simp only [houtput]
  exact serverLoop_echoes_iff hdelivers

/-- The client sends two bytes, and `write` accepts both. -/
theorem serverMain_session_hi :
    let env : ServerEnv := ⟨some 3, true, true, some 4⟩
    serverMain env [⟨.bytes [104, 105], [.taken 2]⟩, endOfInput] =
        some ⟨0, [72, 73, 10], [.close 4, .close 3, .unlink]⟩ ∧
      [Cleanup.close 4, .close 3, .unlink].count .unlink = 1 ∧
      (∀ rounds' : List Round, rounds'.map Round.shape = [(.inl 2, [.taken 2])] →
        (serverMain env (rounds' ++ [endOfInput])).map Outcome.output =
          some (toUpperCase (received rounds') ++ [newline])) := by
  intro env
  have hrun : serverMain env [⟨.bytes [104, 105], [.taken 2]⟩, endOfInput] =
      some ⟨0, [72, 73, 10], [.close 4, .close 3, .unlink]⟩ := by decide
  have hdelivers : (⟨.bytes [104, 105], [.taken 2]⟩ : Round).Delivers := by
    refine ⟨by decide, by decide, fun n hn => ?_⟩
    obtain rfl : n = 2 := by simpa using hn
    decide
  have hwhole : (⟨.bytes [104, 105], [.taken 2]⟩ : Round).Whole := by
    intro n hn
    obtain rfl : 2 = n := WriteResult.taken.inj (Option.some.inj hn)
    exact Nat.le_refl 2
  refine ⟨hrun, ((serverMain_session env _).1 _ hrun).2.1, ?_⟩
  exact ((serverMain_session env [⟨.bytes [104, 105], [.taken 2]⟩]).2 rfl
    (List.forall_mem_singleton.mpr hdelivers)).mpr (List.forall_mem_singleton.mpr hwhole)

end OsTasks.UnixSocket
