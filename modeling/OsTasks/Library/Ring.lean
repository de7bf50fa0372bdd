import Mathlib.Data.List.Nodup
import Mathlib.Data.Nat.ModEq
import Mathlib.Data.PNat.Defs
import Mathlib.Logic.Function.Basic

/-!
# Rings of cells

A ring of `cap` cells is read and written through lists of addresses. `ringAddrs cap off n` lists
the `n` addresses met when walking from `off`, and `storeAt m as xs` writes the list `xs` to the
addresses `as`, one by one. Everything a bounded queue over a circular array needs is then a fact
about address lists: two consecutive walks concatenate, a walk of at most `cap` steps meets no
address twice, and a store is seen at its own addresses only.

## Main definitions

* `ringAddrs`: the addresses of a walk around a ring.
* `storeAt`: the memory after a list has been written to a list of addresses.

## Main results

* `ringAddrs_append`, `ringAddrs_nodup`: walks concatenate and do not revisit.
* `map_storeAt_self`, `map_storeAt_of_disjoint`: what is read back after a store.
-/

namespace OsTasks

variable {α : Type*}

/-! ### Walks around a ring -/

/-- The addresses met when walking `n` steps around a ring of `cap` cells, from `off`. -/
def ringAddrs (cap off n : ℕ) : List ℕ :=
  (List.range n).map fun i => (off + i) % cap

/-- Nothing fits into every ring. -/
theorem empty_le (cap : ℕ+) : 0 ≤ (cap : ℕ) := Nat.zero_le _

@[simp] theorem length_ringAddrs (cap off n : ℕ) : (ringAddrs cap off n).length = n := by
  simp [ringAddrs]

@[simp] theorem ringAddrs_zero (cap off : ℕ) : ringAddrs cap off 0 = [] := rfl

theorem getElem_ringAddrs (cap off n i : ℕ) (h : i < (ringAddrs cap off n).length) :
    (ringAddrs cap off n)[i] = (off + i) % cap := by
  simp [ringAddrs]

theorem ringAddrs_lt {cap off n a : ℕ} (hcap : 0 < cap) (ha : a ∈ ringAddrs cap off n) :
    a < cap := by
  simp only [ringAddrs, List.mem_map, List.mem_range] at ha
  obtain ⟨i, -, rfl⟩ := ha
  exact Nat.mod_lt _ hcap

/-- A walk of `a + b` steps is a walk of `a` steps followed by one of `b` steps. -/
theorem ringAddrs_append (cap off a b : ℕ) :
    ringAddrs cap off (a + b) = ringAddrs cap off a ++ ringAddrs cap (off + a) b := by
  simp [ringAddrs, List.range_add, Nat.add_assoc, Function.comp_def]

theorem ringAddrs_succ (cap off n : ℕ) :
    ringAddrs cap off (n + 1) = off % cap :: ringAddrs cap (off + 1) n := by
  rw [Nat.add_comm n 1, ringAddrs_append]
  rfl

@[simp] theorem ringAddrs_mod (cap off n : ℕ) :
    ringAddrs cap (off % cap) n = ringAddrs cap off n := by
  simp [ringAddrs, Nat.mod_add_mod]

/-- Within one lap a ring walk is a plain range. -/
theorem ringAddrs_eq_range' {cap off n : ℕ} (h : off + n ≤ cap) :
    ringAddrs cap off n = List.range' off n := by
  apply List.ext_getElem (by simp)
  intro i h₁ h₂
  rw [getElem_ringAddrs, List.getElem_range', Nat.mod_eq_of_lt, Nat.one_mul]
  simp only [length_ringAddrs] at h₁
  omega

/-- A walk that leaves the end of the array continues at its start. -/
theorem ringAddrs_eq_range'_append {cap off n : ℕ} (hoff : off < cap) (h : cap ≤ off + n)
    (hn : n ≤ cap) :
    ringAddrs cap off n = List.range' off (cap - off) ++ List.range' 0 (off + n - cap) := by
  have hsplit : n = (cap - off) + (off + n - cap) := by omega
  conv_lhs => rw [hsplit]
  rw [ringAddrs_append, ringAddrs_eq_range' (by omega), Nat.add_sub_cancel' (Nat.le_of_lt hoff)]
  rw [← ringAddrs_mod, Nat.mod_self, ringAddrs_eq_range' (by omega)]

/-- A walk of at most one lap meets no address twice. -/
theorem ringAddrs_nodup {cap off n : ℕ} (hn : n ≤ cap) : (ringAddrs cap off n).Nodup := by
  refine List.Nodup.map_on (fun i hi j hj hij => ?_) List.nodup_range
  rw [List.mem_range] at hi hj
  have h : i ≡ j [MOD cap] := Nat.ModEq.add_left_cancel' off hij
  exact h.eq_of_lt_of_lt (by omega) (by omega)

/-- The cells behind a walk and the cells of the walk are different, up to a full lap. -/
theorem ringAddrs_disjoint {cap off a b : ℕ} (h : a + b ≤ cap) :
    List.Disjoint (ringAddrs cap off a) (ringAddrs cap (off + a) b) := by
  have hnd : (ringAddrs cap off (a + b)).Nodup := ringAddrs_nodup h
  rw [ringAddrs_append] at hnd
  exact List.disjoint_of_nodup_append hnd

/-! ### Stores to lists of addresses -/

/-- The memory `m` after the values `xs` have been written to the addresses `as` in turn, until
either list ends. -/
def storeAt (m : ℕ → α) : List ℕ → List α → ℕ → α
  | a :: as, x :: xs => storeAt (Function.update m a x) as xs
  | _, _ => m

@[simp] theorem storeAt_nil (m : ℕ → α) (as : List ℕ) : storeAt m as [] = m := by
  cases as <;> rfl

@[simp] theorem storeAt_nil_left (m : ℕ → α) (xs : List α) : storeAt m [] xs = m := rfl

@[simp] theorem storeAt_cons (m : ℕ → α) (a : ℕ) (as : List ℕ) (x : α) (xs : List α) :
    storeAt m (a :: as) (x :: xs) = storeAt (Function.update m a x) as xs := rfl

/-- A store changes no other address. -/
theorem storeAt_of_notMem {m : ℕ → α} {as : List ℕ} {xs : List α} {a : ℕ} (ha : a ∉ as) :
    storeAt m as xs a = m a := by
  induction as generalizing m xs with
  | nil => rfl
  | cons b as ih =>
    cases xs with
    | nil => rfl
    | cons x xs =>
      simp only [List.mem_cons, not_or] at ha
      rw [storeAt_cons, ih ha.2, Function.update_of_ne ha.1]

theorem map_storeAt_of_disjoint {m : ℕ → α} {as bs : List ℕ} {xs : List α}
    (h : List.Disjoint bs as) : bs.map (storeAt m as xs) = bs.map m :=
  List.map_congr_left fun _ hb => storeAt_of_notMem (h hb)

/-- The values stored are read back in order from distinct addresses. -/
theorem map_storeAt_self {m : ℕ → α} {as : List ℕ} {xs : List α} (hnd : as.Nodup)
    (hlen : as.length = xs.length) : as.map (storeAt m as xs) = xs := by
  induction as generalizing m xs with
  | nil => cases xs <;> simp_all
  | cons a as ih =>
    cases xs with
    | nil => simp at hlen
    | cons x xs =>
      obtain ⟨ha, hnd⟩ := List.nodup_cons.mp hnd
      have htail : as.map (storeAt (Function.update m a x) as xs) = xs :=
        ih hnd (by simpa using hlen)
      rw [storeAt_cons, List.map_cons, htail, storeAt_of_notMem ha, Function.update_self]

/-- Addresses past the end of the values are not written. -/
theorem storeAt_take (m : ℕ → α) (as : List ℕ) (xs : List α) :
    storeAt m (as.take xs.length) xs = storeAt m as xs := by
  induction as generalizing m xs with
  | nil => simp
  | cons a as ih =>
    cases xs with
    | nil => simp
    | cons x xs => exact ih _ xs

end OsTasks
