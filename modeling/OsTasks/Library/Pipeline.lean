import Mathlib.Data.List.Basic
import Mathlib.Data.List.Forall2
import Mathlib.Data.List.Nodup

/-!
# Queues in a row

A queue gives away what it got, in the same order: what it held and what came is what went and what
it holds. This is kept when it is used again, and when the one queue feeds the next. A table has one
queue for each key.

## Main definitions

* `Passes`: the account of a queue.
* `entryAt`, `heldAt`: the entry of a table with a key, and what the queue of this entry holds.

## Main results

* `Passes.trans`: a queue that is used again.
* `Passes.serial`, `Passes.initial`: a queue that feeds the next one.
* `Passes.next`: the queues that a key has had.
* `entryAt_filterMap`, `entryAt_rel`, `heldAt_rel`: a table that has been changed entry by entry.
-/

namespace OsTasks

variable {α β κ : Type*}

/-! ### One queue -/

/-- A queue that held `held` has got `came` and given away `went`, and holds `held'`. -/
def Passes (held came went held' : List β) : Prop := held ++ came = went ++ held'

namespace Passes

variable {held held' held'' came came' went went' gone : List β}

theorem refl (held : List β) : Passes held [] [] held := List.append_nil held

/-- A queue that is used again. -/
theorem trans (h : Passes held came went held') (h' : Passes held' came' went' held'') :
    Passes held (came ++ came') (went ++ went') held'' := by
  unfold Passes at h h' ⊢
  rw [← List.append_assoc, h, List.append_assoc, h', List.append_assoc]

/-- What a queue has given away is the start of what it has got. -/
theorem initial (h : Passes [] came went held) : went <+: came := ⟨held, h.symm⟩

/-- A queue that feeds the next one. -/
theorem serial (h : Passes [] came went held) (h' : Passes [] went gone held') :
    Passes [] came gone (held' ++ held) := by
  unfold Passes at h h' ⊢
  rw [List.nil_append] at h h' ⊢
  rw [h, h', List.append_assoc]

end Passes

/-! ### A table of queues -/

variable [DecidableEq κ] (key : α → κ)

/-- The first entry of a table with a key. -/
def entryAt (table : List α) (k : κ) : Option α := table.find? fun a => key a = k

variable {key} {table table' : List α} {k : κ} {a : α}

theorem mem_of_entryAt (h : entryAt key table k = some a) : a ∈ table ∧ key a = k :=
  ⟨List.mem_of_find?_eq_some h, by simpa using List.find?_some h⟩

theorem entryAt_eq_none_iff : entryAt key table k = none ↔ ∀ a ∈ table, key a ≠ k := by
  simp [entryAt]

/-- In a table without repeated keys an entry is found under its key. -/
theorem entryAt_of_mem (hnd : (table.map key).Nodup) (ha : a ∈ table) :
    entryAt key table (key a) = some a := by
  cases h : entryAt key table (key a) with
  | none => exact absurd rfl (entryAt_eq_none_iff.mp h a ha)
  | some b =>
    obtain ⟨hb, hkey⟩ := mem_of_entryAt h
    rw [List.inj_on_of_nodup_map hnd hb ha hkey]

theorem entryAt_append (table table' : List α) (k : κ) :
    entryAt key (table ++ table') k = (entryAt key table k).or (entryAt key table' k) :=
  List.find?_append

/-- Entries that are changed and keep their keys. -/
theorem entryAt_rel {R : α → α → Prop} (h : List.Forall₂ R table table')
    (hkey : ∀ a b, R a b → key b = key a) (k : κ) :
    Option.Rel R (entryAt key table k) (entryAt key table' k) := by
  induction h with
  | nil => exact .none
  | @cons a b table table' hab _ ih =>
    unfold entryAt at ih ⊢
    rw [List.find?_cons, List.find?_cons, hkey a b hab]
    split
    · exact .some hab
    · exact ih

/-- Entries that are changed or removed. -/
theorem entryAt_filterMap {f : α → Option α} (hf : ∀ a b, f a = some b → key b = key a)
    (hnd : (table.map key).Nodup) (k : κ) :
    entryAt key (table.filterMap f) k = (entryAt key table k).bind f := by
  induction table with
  | nil => rfl
  | cons a table ih =>
    obtain ⟨hnot, hnd⟩ := List.nodup_cons.mp hnd
    have ih := ih hnd
    by_cases hk : key a = k
    · have hhead : entryAt key (a :: table) k = some a := List.find?_cons_of_pos (by simpa using hk)
      have hrest : entryAt key table k = none := entryAt_eq_none_iff.mpr fun b hb hkb =>
        hnot (List.mem_map.mpr ⟨b, hb, hkb.trans hk.symm⟩)
      rw [hhead, Option.bind_some]
      cases hfa : f a with
      | none => rw [List.filterMap_cons_none hfa, ih, hrest, Option.bind_none]
      | some b =>
        rw [List.filterMap_cons_some hfa]
        exact List.find?_cons_of_pos (by simpa using (hf a b hfa).trans hk)
    · have hhead : entryAt key (a :: table) k = entryAt key table k :=
        List.find?_cons_of_neg (by simpa using hk)
      rw [hhead, ← ih]
      cases hfa : f a with
      | none => rw [List.filterMap_cons_none hfa]
      | some b =>
        rw [List.filterMap_cons_some hfa]
        exact List.find?_cons_of_neg (by simpa [hf a b hfa] using hk)

variable (key) in
/-- What the queue of the entry with a key holds. -/
def heldAt (queue : α → List β) (table : List α) (k : κ) : List β :=
  (entryAt key table k).elim [] queue

variable {queue : α → List β}

theorem heldAt_of_mem (hnd : (table.map key).Nodup) (ha : a ∈ table) :
    heldAt key queue table (key a) = queue a := by
  rw [heldAt, entryAt_of_mem hnd ha]
  rfl

theorem heldAt_of_forall_ne (h : ∀ a ∈ table, key a ≠ k) : heldAt key queue table k = [] := by
  rw [heldAt, entryAt_eq_none_iff.mpr h]
  rfl

/-- What is related for the entries of two tables is related for their keys. -/
theorem heldAt_rel {R : α → α → Prop} {P : List β → List β → Prop}
    (h : List.Forall₂ R table table') (hkey : ∀ a b, R a b → key b = key a)
    (hnone : (∀ a ∈ table, key a ≠ k) → P [] [])
    (hsome : ∀ a b, key a = k → R a b → P (queue a) (queue b)) :
    P (heldAt key queue table k) (heldAt key queue table' k) := by
  have hrel := entryAt_rel h hkey k
  unfold heldAt
  cases hk : entryAt key table k with
  | none =>
    rw [hk] at hrel
    cases hk' : entryAt key table' k with
    | none => exact hnone (entryAt_eq_none_iff.mp hk)
    | some b => rw [hk'] at hrel; cases hrel
  | some a =>
    rw [hk] at hrel
    cases hk' : entryAt key table' k with
    | none => rw [hk'] at hrel; cases hrel
    | some b =>
      rw [hk'] at hrel
      cases hrel with
      | some hab => exact hsome a b (mem_of_entryAt hk).2 hab

/-- Entries with empty queues make no difference. -/
theorem heldAt_append (h : ∀ a ∈ table', queue a = []) :
    heldAt key queue (table ++ table') k = heldAt key queue table k := by
  unfold heldAt
  rw [entryAt_append]
  cases entryAt key table k with
  | some a => rfl
  | none =>
    cases hk : entryAt key table' k with
    | none => rfl
    | some a => exact h a (mem_of_entryAt hk).1

/-- The account of all queues that a key has had, when the queues of the table have passed on bytes.
What a queue held when its entry was removed is lost. -/
theorem Passes.next {came came' went went' lost : List β} (hnd : (table.map key).Nodup)
    (hnd' : (table'.map key).Nodup) (h : Passes [] came went lost)
    (hlost : ∀ a ∈ table, key a = k → lost = queue a)
    (h' : Passes (heldAt key queue table k) came' went' (heldAt key queue table' k))
    (hgone : (∀ a ∈ table, key a ≠ k) → went' = [])
    (hnew : ∀ a ∈ table', key a = k → (∃ b ∈ table, key b = k) ∨ came = []) :
    ∃ lost', Passes [] (came ++ came') (went ++ went') lost' ∧
      ∀ a ∈ table', key a = k → lost' = queue a := by
  have hqueue' : ∀ a ∈ table', key a = k → heldAt key queue table' k = queue a := by
    rintro a ha rfl
    exact heldAt_of_mem hnd' ha
  by_cases hex : ∃ a ∈ table, key a = k
  · obtain ⟨a, ha, rfl⟩ := hex
    rw [heldAt_of_mem hnd ha, ← hlost a ha rfl] at h'
    exact ⟨_, h.trans h', hqueue'⟩
  · have hnone : ∀ a ∈ table, key a ≠ k := fun a ha hk => hex ⟨a, ha, hk⟩
    rw [heldAt_of_forall_ne hnone, hgone hnone] at h'
    refine ⟨lost ++ heldAt key queue table' k, ?_, fun a ha hk => ?_⟩
    · unfold Passes at h h' ⊢
      rw [List.nil_append] at h h' ⊢
      rw [h, h', hgone hnone, List.append_nil, List.nil_append, List.append_assoc]
    · rw [(hnew a ha hk).resolve_left hex] at h
      rw [(List.append_eq_nil_iff.mp h.symm).2, hqueue' a ha hk, List.nil_append]

end OsTasks
