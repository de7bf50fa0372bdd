import OsTasks.PortForwarding.RoundBuffer

/-!
# The cells without unread bytes

Bytes are stored behind the unread bytes of a buffer as long as these do not run past the end of its
array. When they do, bytes are stored at the start of the array, where unread bytes are, and what is
counted as unread are cells that have not been written. What the buffer holds afterwards then
depends on the bytes that these cells happened to have.

## Main definitions

* `RoundBuffer.Holds`, `RoundBuffer.withArray`: another array with the same unread bytes.
* `RoundBuffer.putAll`: pieces that are stored one after the other.
* `RoundBuffer.InLine`: no piece finds unread bytes that run past the end of the array.

## Main results

* `contents_putAll`: the pieces come behind the unread bytes.
* `exists_getLast?_putAll`: otherwise the last byte can be any.
-/

namespace OsTasks.PortForwarding

namespace RoundBuffer

/-- The array `mem` holds the unread bytes of the buffer. -/
def Holds (buf : RoundBuffer) (mem : ℕ → UInt8) : Prop := ∀ a ∈ buf.dataAddrs, mem a = buf.buffer a

/-- The buffer over another array. -/
def withArray (buf : RoundBuffer) (mem : ℕ → UInt8) : RoundBuffer := { buf with buffer := mem }

/-- Pieces that are put into the buffer one after the other. -/
def putAll (buf : RoundBuffer) (pieces : List (List UInt8)) : RoundBuffer := pieces.foldl put buf

/-- Where the last piece is stored, the unread bytes do not run past the end of the array. -/
def InLine (buf : RoundBuffer) (pieces : List (List UInt8)) : Prop :=
  pieces ≠ [] → buf.offset + buf.length + pieces.dropLast.flatten.length ≤ buf.capacity

instance (buf : RoundBuffer) (pieces : List (List UInt8)) : Decidable (buf.InLine pieces) :=
  inferInstanceAs (Decidable (_ → _))

end RoundBuffer

variable {buf : RoundBuffer} {mem : ℕ → UInt8} {bs : List UInt8} {pieces : List (List UInt8)}

@[simp] theorem withArray_buffer (buf : RoundBuffer) : buf.withArray buf.buffer = buf := rfl

theorem holds_buffer (buf : RoundBuffer) : buf.Holds buf.buffer := fun _ _ => rfl

theorem contents_withArray (h : buf.Holds mem) : (buf.withArray mem).contents = buf.contents :=
  List.map_congr_left h

/-- A byte is changed in a cell without an unread byte. -/
theorem holds_update {a : ℕ} (ha : a ∉ buf.dataAddrs) (b : UInt8) :
    buf.Holds (Function.update buf.buffer a b) :=
  fun _ ha' => Function.update_of_ne (ne_of_mem_of_not_mem ha' ha) _ _

@[simp] theorem putAll_nil (buf : RoundBuffer) : buf.putAll [] = buf := rfl

@[simp] theorem putAll_cons (buf : RoundBuffer) (bs : List UInt8) (pieces : List (List UInt8)) :
    buf.putAll (bs :: pieces) = (buf.put bs).putAll pieces := rfl

theorem putAll_append (buf : RoundBuffer) (pieces pieces' : List (List UInt8)) :
    buf.putAll (pieces ++ pieces') = (buf.putAll pieces).putAll pieces' := List.foldl_append

theorem length_put_of_room (h : bs.length ≤ bufFreeLength buf) :
    (buf.put bs).length = buf.length + bs.length := by
  have hlen := buf.length_le
  rw [length_put]
  unfold bufFreeLength at h
  omega

theorem bufFreeLength_put (h : bs.length ≤ bufFreeLength buf) :
    bufFreeLength (buf.put bs) = bufFreeLength buf - bs.length := by
  rw [bufFreeLength, bufFreeLength, capacity_put, length_put_of_room h]
  omega

/-- Room for all pieces is room for the first one, and for the others behind it. -/
theorem room_cons (h : (bs :: pieces).flatten.length ≤ bufFreeLength buf) :
    bs.length ≤ bufFreeLength buf ∧ pieces.flatten.length ≤ bufFreeLength (buf.put bs) := by
  rw [List.flatten_cons, List.length_append] at h
  have hbs := (Nat.le_add_right _ _).trans h
  rw [bufFreeLength_put hbs]
  omega

theorem length_putAll (h : pieces.flatten.length ≤ bufFreeLength buf) :
    (buf.putAll pieces).length = buf.length + pieces.flatten.length ∧
      (buf.putAll pieces).offset = buf.offset ∧ (buf.putAll pieces).capacity = buf.capacity := by
  induction pieces generalizing buf with
  | nil => exact ⟨rfl, rfl, rfl⟩
  | cons bs pieces ih =>
    obtain ⟨hbs, hrest⟩ := room_cons h
    obtain ⟨hlen, hoff, hcap⟩ := ih hrest
    refine ⟨?_, hoff, hcap⟩
    rw [putAll_cons, hlen, length_put_of_room hbs, List.flatten_cons, List.length_append,
      Nat.add_assoc]

theorem bufFreeLength_putAll (h : pieces.flatten.length ≤ bufFreeLength buf) :
    bufFreeLength (buf.putAll pieces) = bufFreeLength buf - pieces.flatten.length := by
  obtain ⟨hlen, -, hcap⟩ := length_putAll h
  rw [bufFreeLength, bufFreeLength, hlen, hcap]
  omega

/-- One piece more in front. -/
theorem inLine_cons_iff (h : bs.length ≤ bufFreeLength buf) (hne : pieces ≠ []) :
    buf.InLine (bs :: pieces) ↔ (buf.put bs).InLine pieces := by
  unfold RoundBuffer.InLine
  rw [List.dropLast_cons_of_ne_nil hne, List.flatten_cons, List.length_append, capacity_put,
    offset_put, length_put_of_room h]
  simp only [hne, ne_eq, not_false_eq_true, List.cons_ne_nil, forall_const, ← Nat.add_assoc]

theorem RoundBuffer.InLine.unwrapped (h : buf.InLine (bs :: pieces)) : buf.Unwrapped :=
  (Nat.le_add_right _ _).trans (h (List.cons_ne_nil _ _))

theorem inLine_singleton_iff : buf.InLine [bs] ↔ buf.Unwrapped :=
  ⟨RoundBuffer.InLine.unwrapped, fun h _ => h⟩

/-- **Pieces in line** come behind the unread bytes. -/
theorem contents_putAll (h : buf.InLine pieces)
    (hroom : pieces.flatten.length ≤ bufFreeLength buf) :
    (buf.putAll pieces).contents = buf.contents ++ pieces.flatten := by
  induction pieces generalizing buf with
  | nil => exact (List.append_nil _).symm
  | cons bs pieces ih =>
    obtain ⟨hbs, hrest⟩ := room_cons hroom
    have hput := contents_put h.unwrapped hbs
    by_cases hne : pieces = []
    · subst hne
      rw [putAll_cons, putAll_nil, hput, List.flatten_singleton]
    · rw [putAll_cons, ih ((inLine_cons_iff hbs hne).mp h) hrest, hput, List.flatten_cons,
        List.append_assoc]

/-! ### What a piece does not reach -/

/-- The cell at a place behind the unread bytes and the stored ones is left alone; so is the last
one of these when the unread bytes run past the end of the array. -/
theorem buffer_put_of_behind {q : ℕ} (hroom : bs.length ≤ bufFreeLength buf) (hq : q < buf.capacity)
    (h : buf.length + bs.length ≤ q ∨ ¬ buf.Unwrapped ∧ buf.length + bs.length ≤ q + 1) :
    (buf.put bs).buffer ((buf.offset + q) % buf.capacity) =
      buf.buffer ((buf.offset + q) % buf.capacity) := by
  have hoff := buf.offset_lt
  have hlen := buf.length_le
  change storeAt buf.buffer (iovAddrs (bufWritingIov buf)) bs _ = _
  rw [← storeAt_take]
  refine storeAt_of_notMem fun ha => ?_
  by_cases hwrap : buf.Unwrapped
  · have hq' := h.resolve_right fun hw => hw.1 hwrap
    have hfree : bufFreeLength buf = bs.length + (bufFreeLength buf - bs.length) := by omega
    rw [iovAddrs_bufWritingIov hwrap, hfree, ringAddrs_append,
      List.take_left' (length_ringAddrs _ _ _)] at ha
    have hmem : (buf.offset + q) % buf.capacity ∈
        ringAddrs buf.capacity (buf.offset + buf.length + bs.length)
          (buf.capacity - buf.length - bs.length) := by
      refine List.mem_map.mpr ⟨q - buf.length - bs.length, List.mem_range.mpr (by omega), ?_⟩
      congr 1
      omega
    unfold bufFreeLength at hroom
    exact ringAddrs_disjoint (by omega) ha hmem
  · by_cases hfull : buf.length = buf.capacity
    · rw [bufWritingIov_of_full hfull] at ha
      simp at ha
    · rw [bufWritingIov_of_wrapped hwrap hfull, iovAddrs_cons, iovAddrs_nil, List.append_nil] at ha
      obtain ⟨i, hi, hget⟩ := List.mem_take_iff_getElem.mp ha
      rw [List.getElem_range'] at hget
      rw [List.length_range'] at hi
      dsimp only at hget hi
      unfold RoundBuffer.Unwrapped at hwrap
      have hmod : (buf.offset + q) % buf.capacity = buf.offset + q - buf.capacity := by
        rw [Nat.mod_eq_sub_mod (by omega), Nat.mod_eq_of_lt (by omega)]
      omega

/-- **The last byte**, when the last piece finds unread bytes that run past the end of the array:
its cell is not written. -/
theorem buffer_putAll_last (h : ¬ buf.InLine pieces) (hne : ∀ bs ∈ pieces, bs ≠ [])
    (hroom : pieces.flatten.length ≤ bufFreeLength buf) :
    0 < pieces.flatten.length ∧ (buf.putAll pieces).buffer
        ((buf.offset + (buf.length + pieces.flatten.length - 1)) % buf.capacity) =
      buf.buffer ((buf.offset + (buf.length + pieces.flatten.length - 1)) % buf.capacity) := by
  induction pieces generalizing buf with
  | nil => exact absurd (fun hnil => absurd rfl hnil) h
  | cons bs pieces ih =>
    obtain ⟨hbs, hrest⟩ := room_cons hroom
    obtain ⟨hbs₀, hpieces⟩ := List.forall_mem_cons.mp hne
    have hpos := List.length_pos_of_ne_nil hbs₀
    have hlen := buf.length_le
    have hle : buf.length + (bs :: pieces).flatten.length ≤ buf.capacity := by
      unfold bufFreeLength at hroom
      omega
    rw [List.flatten_cons, List.length_append] at hle ⊢
    refine ⟨by omega, ?_⟩
    by_cases hnil : pieces = []
    · subst hnil
      rw [inLine_singleton_iff] at h
      rw [List.flatten_nil, List.length_nil, Nat.add_zero] at hle ⊢
      exact buffer_put_of_behind hbs (by omega) (.inr ⟨h, by omega⟩)
    · obtain ⟨hmore, hlast⟩ := ih (mt (inLine_cons_iff hbs hnil).mpr h) hpieces hrest
      rw [offset_put, capacity_put, length_put_of_room hbs, Nat.add_assoc buf.length] at hlast
      rw [putAll_cons, hlast]
      exact buffer_put_of_behind hbs (by omega) (.inl (by omega))

/-- **Pieces that are not in line**: whatever byte is wanted, with some bytes in the cells without
unread bytes it is the last one of the buffer afterwards. -/
theorem exists_getLast?_putAll (h : ¬ buf.InLine pieces) (hne : ∀ bs ∈ pieces, bs ≠ [])
    (hroom : pieces.flatten.length ≤ bufFreeLength buf) (b : UInt8) :
    ∃ mem, buf.Holds mem ∧ ((buf.withArray mem).putAll pieces).contents.getLast? = some b := by
  have hlen := buf.length_le
  have hcap := buf.capacity_pos
  let q := buf.length + pieces.flatten.length - 1
  obtain ⟨hpos, -⟩ := buffer_putAll_last h hne hroom
  have hq : buf.length ≤ q ∧ q < buf.capacity := by
    unfold bufFreeLength at hroom
    omega
  let a := (buf.offset + q) % buf.capacity
  -- the place of the last byte is behind the unread ones
  have ha : a ∉ buf.dataAddrs := fun hmem => by
    have hfree : a ∈ ringAddrs buf.capacity (buf.offset + buf.length) (bufFreeLength buf) := by
      refine List.mem_map.mpr ⟨q - buf.length, List.mem_range.mpr ?_, ?_⟩
      · unfold bufFreeLength
        omega
      · change _ = (buf.offset + q) % buf.capacity
        congr 1
        omega
    exact disjoint_dataAddrs_free buf hmem hfree
  let buf' := buf.withArray (Function.update buf.buffer a b)
  have hline : ¬ buf'.InLine pieces := h
  have hroom' : pieces.flatten.length ≤ bufFreeLength buf' := hroom
  refine ⟨_, holds_update ha b, ?_⟩
  obtain ⟨-, hlast⟩ := buffer_putAll_last hline hne hroom'
  obtain ⟨hlen', hoff', hcap'⟩ := length_putAll hroom'
  have hsucc : (buf'.putAll pieces).length = q + 1 := by
    rw [hlen']
    change buf.length + _ = _
    omega
  rw [RoundBuffer.contents, RoundBuffer.dataAddrs, hsucc, ringAddrs_append, hoff', hcap',
    List.map_append, List.getLast?_append]
  change (some ((buf'.putAll pieces).buffer _)).or _ = _
  rw [Option.some_or]
  refine congrArg some (hlast.trans ?_)
  exact Function.update_self _ _ _

/-- One piece that finds unread bytes that run past the end of the array. -/
theorem exists_getLast?_put (h : ¬ buf.Unwrapped) (hne : bs ≠ [])
    (hroom : bs.length ≤ bufFreeLength buf) (b : UInt8) :
    ∃ mem, buf.Holds mem ∧ ((buf.withArray mem).put bs).contents.getLast? = some b :=
  exists_getLast?_putAll (mt inLine_singleton_iff.mp h) (by simpa using hne) (by simpa using hroom)
    b

end OsTasks.PortForwarding
