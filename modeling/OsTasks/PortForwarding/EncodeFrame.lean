import OsTasks.PortForwarding.FrameBytes

/-!
# The frame that `encode` writes

`encode` is asked to write a frame with as many bytes of its source as the free space of its
destination allows. It counts the two bytes in front of the payload and the one behind it, and two
for each byte that it escapes. Its documentation says that it returns `1` when the source is empty
or at least one byte was encoded. The check that decides this in advance counts the escape byte of
`ESC`, but not the one of `END`: with four bytes of room and an `END` byte to send, `encode` writes
an empty frame and returns `1`.

## Main definitions

* `LongestFrame`: how many bytes of a source the longest frame that fits has.
* `TellsProgress`: the return value says whether a byte was encoded.

## Main results

* `encode_longest`: `encode` writes the longest frame that fits, or nothing.
* `tellsProgress_iff`: the buffers for which the return value is right.
-/

namespace OsTasks.PortForwarding

variable {src dst : RoundBuffer}

/-! ### The longest frame -/

/-- The frame with the first `n` bytes of `bs` is the longest one for at most `room` bytes. -/
structure LongestFrame (id : UInt8) (bs : List UInt8) (room n : ℕ) : Prop where
  le_length : n ≤ bs.length
  fits : (dataFrame id (bs.take n)).length ≤ room
  longest : ∀ m ≤ bs.length, (dataFrame id (bs.take m)).length ≤ room → m ≤ n

/-- The bytes that `encode` takes are those of the longest frame, if there is room for any. -/
theorem longestFrame_takenBytes (id : UInt8)
    (hroom : (dataFrame id (takenBytes src dst)).length ≤ bufFreeLength dst) :
    LongestFrame id src.contents (bufFreeLength dst) (takenBytes src dst).length where
  le_length := by
    rw [src.length_contents]
    exact length_takenBytes_le src dst
  fits := by rwa [← takenBytes_eq]
  longest m hm hfits := by
    rw [length_dataFrame] at hfits
    exact le_length_fit hm (Nat.le_sub_of_add_le hfits)

/-- Cells behind the array of a buffer are not written. -/
theorem buffer_put_of_le {bs : List UInt8} (hdst : dst.Unwrapped) {a : ℕ} (ha : dst.capacity ≤ a) :
    (dst.put bs).buffer a = dst.buffer a := by
  refine storeAt_of_notMem fun hmem => ?_
  rw [iovAddrs_bufWritingIov hdst] at hmem
  exact absurd (ringAddrs_lt dst.capacity_pos hmem) (Nat.not_lt.mpr ha)

/-- With something to encode, `encode` does nothing or writes the longest frame. -/
theorem encode_cases (dst : RoundBuffer) (id : UInt8) (hsrc : src.length ≠ 0) :
    encode src dst id = (false, src, dst) ∨
      ∃ n, LongestFrame id src.contents (bufFreeLength dst) n ∧
        encode src dst id =
          (true, bufAdvanceReadPtr src n, dst.put (dataFrame id (src.contents.take n))) := by
  rcases encode_spec src dst id with hnone | ⟨-, hlen, hencode⟩
  · have hempty : bufEmpty src = false := by simpa [bufEmpty] using hsrc
    exact .inl (hempty ▸ hnone)
  · refine .inr ⟨_, longestFrame_takenBytes id hlen, ?_⟩
    rw [← takenBytes_eq]
    exact hencode

/-- **One longest frame.** For a source with contents and a destination whose unread bytes do not
wrap, `encode` leaves both buffers as they were and returns `0`, or returns `1` and moves the bytes
of the longest frame that fits from the source to the destination. The destination stays within its
array, and its earlier bytes stay in front. -/
theorem encode_longest (src dst : RoundBuffer) (id : UInt8) (hsrc : src.length ≠ 0)
    (hdst : dst.Unwrapped) :
    let r := encode src dst id
    (r.1 = false → r.2 = (src, dst)) ∧
      (r.1 = true → ∃ n, LongestFrame id src.contents (bufFreeLength dst) n ∧
        r.2.1.contents = src.contents.drop n ∧
        r.2.2.contents = dst.contents ++ dataFrame id (src.contents.take n)) ∧
      r.2.2.length ≤ dst.capacity ∧ ∀ a, dst.capacity ≤ a → r.2.2.buffer a = dst.buffer a := by
  dsimp only
  rcases encode_cases dst id hsrc with hnone | ⟨n, hn, hframe⟩
  · rw [hnone]
    exact ⟨fun _ => rfl, nofun, dst.length_le, fun _ _ => rfl⟩
  · rw [hframe]
    refine ⟨nofun, fun _ => ⟨n, hn, contents_bufAdvanceReadPtr _ _, contents_put hdst hn.fits⟩, ?_,
      fun a ha => buffer_put_of_le hdst ha⟩
    exact (dst.put _).length_le

/-- A source whose five bytes wrap, three of them to be escaped. -/
def wrappedSource : RoundBuffer :=
  (bufAdvanceReadPtr ((bufCreate (fun _ => 0) (Nat.succPNat 5)).put [0, 0, 0, 1]) 3).put
    [0x7F, 0x7E, 0x7E, 2]

/-- With eight bytes of room the second escaped byte is the last one that fits. -/
theorem encode_longest_wrappedSource :
    ∃ n, LongestFrame 9 wrappedSource.contents 8 n ∧
      (encode wrappedSource (bufCreate (fun _ => 0) (Nat.succPNat 7)) 9).2.1.contents =
        wrappedSource.contents.drop n ∧
      (encode wrappedSource (bufCreate (fun _ => 0) (Nat.succPNat 7)) 9).2.2.contents =
        dataFrame 9 (wrappedSource.contents.take n) :=
  (encode_longest wrappedSource (bufCreate (fun _ => 0) (Nat.succPNat 7)) 9 (by decide)
    (by decide)).2.1 (by decide)

example : (encode wrappedSource (bufCreate (fun _ => 0) (Nat.succPNat 7)) 9).2.2.contents =
    [0x7E, 9, 1, 0x7F, 0x7F, 0x7F, 0x7E, 0x7E] := by decide

/-! ### What the return value tells -/

/-- When `encode` refuses. -/
theorem encode_eq_false_iff (src dst : RoundBuffer) (id : UInt8) :
    (encode src dst id).1 = false ↔ src.length ≠ 0 ∧ (bufFreeLength dst < 4 ∨
      src.contents.head? = some escByte ∧ bufFreeLength dst < 5) := by
  unfold encode bufDataLength
  by_cases hsrc : src.length = 0
  · rw [if_pos hsrc]
    exact ⟨fun h => absurd h.symm Bool.false_ne_true, fun h => absurd hsrc h.1⟩
  · obtain ⟨bs, hbs⟩ := exists_contents_eq_cons hsrc
    rw [if_neg hsrc, hbs, List.head?_cons, Option.some_inj]
    dsimp only
    split_ifs with hfew
    · exact iff_of_true rfl ⟨hsrc, hfew⟩
    · exact iff_of_false not_false fun h => hfew h.2

/-- The return value of `encode` says whether something was done: `1` exactly if the source is
empty or at least one byte went over in a frame, `0` exactly if there is a first byte whose frame
does not fit, and then nothing is written. -/
structure TellsProgress (src dst : RoundBuffer) (id : UInt8) : Prop where
  progress : (encode src dst id).1 = true ↔ src.length = 0 ∨ ∃ n, 0 < n ∧ n ≤ src.length ∧
    (encode src dst id).2.1.contents = src.contents.drop n ∧
    (encode src dst id).2.2.contents = dst.contents ++ dataFrame id (src.contents.take n)
  refused : (encode src dst id).1 = false ↔
    src.length ≠ 0 ∧ bufFreeLength dst < (dataFrame id (src.contents.take 1)).length
  untouched : (encode src dst id).1 = false → (encode src dst id).2.2 = dst

/-- The room that the frame of one byte needs. -/
theorem length_dataFrame_singleton (id b : UInt8) :
    (dataFrame id [b]).length = if b = escByte ∨ b = endByte then 5 else 4 := by
  rw [length_dataFrame, escaped, stuff]
  split_ifs <;> rfl

/-- `encode` refuses exactly the first bytes whose frame does not fit, up to an `END` byte and four
bytes of room. -/
theorem refused_iff (id : UInt8)
    (h : ¬ (src.contents.head? = some endByte ∧ bufFreeLength dst = 4)) :
    (encode src dst id).1 = false ↔
      src.length ≠ 0 ∧ bufFreeLength dst < (dataFrame id (src.contents.take 1)).length := by
  rw [encode_eq_false_iff]
  refine and_congr_right fun hsrc => ?_
  obtain ⟨bs, hbs⟩ := exists_contents_eq_cons hsrc
  rw [hbs, List.head?_cons, Option.some_inj] at h ⊢
  rw [List.take_succ_cons, List.take_zero, length_dataFrame_singleton]
  split_ifs with hb
  · rcases hb with hesc | hend
    · simp only [hesc, true_and]
      omega
    · rw [hend] at h ⊢
      have hne : endByte ≠ escByte := by decide
      simp only [hne, false_and, or_false]
      have : bufFreeLength dst ≠ 4 := fun hfour => h ⟨rfl, hfour⟩
      omega
  · simp only [(not_or.mp hb).1, false_and, or_false]

/-- **The return value of `encode`** tells the truth exactly if not an `END` byte is to be sent
with four bytes of room left. -/
theorem tellsProgress_iff (id : UInt8) (hdst : dst.Unwrapped) :
    TellsProgress src dst id ↔
      ¬ (src.contents.head? = some endByte ∧ bufFreeLength dst = 4) := by
  constructor
  · rintro ⟨-, hrefused, -⟩ ⟨hend, hfour⟩
    have hsrc : src.length ≠ 0 := fun hzero => by
      rw [src.contents_eq_nil_iff.mpr hzero] at hend
      exact absurd hend (by rintro ⟨⟩)
    obtain ⟨bs, hbs⟩ := exists_contents_eq_cons hsrc
    rw [hbs, List.head?_cons, Option.some_inj] at hend
    rw [encode_eq_false_iff, hbs, List.head?_cons, Option.some_inj, List.take_succ_cons,
      List.take_zero, length_dataFrame_singleton, hend, hfour, if_pos (.inr rfl)] at hrefused
    rcases (hrefused.mpr ⟨hsrc, by omega⟩).2 with hfew | ⟨hesc, -⟩
    · omega
    · exact absurd hesc (by decide)
  · intro h
    have hrefused := refused_iff id h
    by_cases hsrc : src.length = 0
    · have htrue : (encode src dst id).1 = true :=
        Bool.eq_true_of_not_eq_false fun hfalse => (hrefused.mp hfalse).1 hsrc
      exact ⟨iff_of_true htrue (.inl hsrc), hrefused,
        fun hfalse => absurd hsrc (hrefused.mp hfalse).1⟩
    rcases encode_cases dst id hsrc with hnone | ⟨n, hn, hframe⟩
    · refine ⟨iff_of_false ?_ ?_, hrefused, fun _ => ?_⟩ <;> rw [hnone]
      · exact Bool.false_ne_true
      · rintro (hempty | ⟨n, hpos, hle, hcontents, -⟩)
        · exact hsrc hempty
        · have hlen := congrArg List.length hcontents
          rw [List.length_drop, src.length_contents] at hlen
          omega
    · have htrue : (encode src dst id).1 = true := by rw [hframe]
      -- the frame of the first byte fits, so the longest one has a byte
      have hone : (dataFrame id (src.contents.take 1)).length ≤ bufFreeLength dst := by
        by_contra hfew
        rw [hrefused.mpr ⟨hsrc, Nat.not_le.mp hfew⟩] at htrue
        exact Bool.false_ne_true htrue
      have hle : 1 ≤ src.contents.length := by
        rw [src.length_contents]
        exact Nat.pos_of_ne_zero hsrc
      refine ⟨iff_of_true htrue (.inr ⟨n, hn.longest 1 hle hone, ?_, ?_, ?_⟩), hrefused,
        fun hfalse => absurd (htrue.symm.trans hfalse) nofun⟩
      · exact src.length_contents ▸ hn.le_length
      · rw [hframe]
        exact contents_bufAdvanceReadPtr _ _
      · rw [hframe]
        exact contents_put hdst hn.fits

/-- An `END` byte to be sent. -/
def endToSend : RoundBuffer := (bufCreate (fun _ => 0) (Nat.succPNat 0)).put [endByte]

theorem tellsProgress_fiveFree :
    TellsProgress endToSend (bufCreate (fun _ => 0) (Nat.succPNat 4)) 1 :=
  (tellsProgress_iff 1 (by decide)).mpr (by decide)

/-- With four bytes of room an empty frame is written, the `END` byte stays where it is, and the
return value is `1`. -/
theorem not_tellsProgress_fourFree :
    ¬ TellsProgress endToSend (bufCreate (fun _ => 0) (Nat.succPNat 3)) 1 ∧
      (encode endToSend (bufCreate (fun _ => 0) (Nat.succPNat 3)) 1).1 = true ∧
      (encode endToSend (bufCreate (fun _ => 0) (Nat.succPNat 3)) 1).2.1.contents = [0x7E] ∧
      (encode endToSend (bufCreate (fun _ => 0) (Nat.succPNat 3)) 1).2.2.contents =
        [0x7E, 1, 0x7E] := by
  refine ⟨fun h => ?_, by decide, by decide, by decide⟩
  have hfalse := h.refused.mpr ⟨by decide, by decide⟩
  exact absurd hfalse (by decide)

end OsTasks.PortForwarding
