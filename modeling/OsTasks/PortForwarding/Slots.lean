import OsTasks.PortForwarding.Controller

/-!
# Finding connections

The manager's list of slots is addressed in two ways: by the address of a connection object, which
is unique, and by the id of a connection, which the array sorted by `sort_connections` resolves to
the last connection with that id. This file has the facts about both that the rest of the
development uses.

## Main definitions

* `lastWithId`: the connection that the sorted array holds for an id.
* `Assigns`: what `sort_connections` does to the stack of free ids and to the slots.

## Main results

* `findSlot_eq_some_iff`, `modifyConn_eq_append`: objects are found and changed by their address.
* `sortConnections_assigns`, `sortConnections_apply`: `sort_connections`.
-/

namespace OsTasks.PortForwarding

/-! ### Objects by address -/

theorem mem_of_findSlot {slots : List Slot} {ref : ℕ} {s : Slot}
    (h : findSlot slots ref = some s) : s ∈ slots :=
  List.mem_of_find?_eq_some h

theorem ref_of_findSlot {slots : List Slot} {ref : ℕ} {s : Slot}
    (h : findSlot slots ref = some s) : s.ref = ref := by
  simpa using List.find?_some h

/-- Two slots of a list without repeated addresses are equal when their addresses are. -/
theorem eq_of_ref_eq {slots : List Slot} (hnd : (slots.map Slot.ref).Nodup) {s t : Slot}
    (hs : s ∈ slots) (ht : t ∈ slots) (h : s.ref = t.ref) : s = t :=
  List.inj_on_of_nodup_map hnd hs ht h

theorem findSlot_eq_some_iff {slots : List Slot} (hnd : (slots.map Slot.ref).Nodup) {ref : ℕ}
    {s : Slot} : findSlot slots ref = some s ↔ s ∈ slots ∧ s.ref = ref := by
  refine ⟨fun h => ⟨mem_of_findSlot h, ref_of_findSlot h⟩, fun ⟨hs, href⟩ => ?_⟩
  have hsome : (findSlot slots ref).isSome := by
    rw [findSlot, List.find?_isSome]
    exact ⟨s, hs, by simpa using href⟩
  obtain ⟨t, ht⟩ := Option.isSome_iff_exists.mp hsome
  rw [ht, eq_of_ref_eq hnd hs (mem_of_findSlot ht) (href.trans (ref_of_findSlot ht).symm)]

theorem lookup_eq_some {slots : List Slot} {conns : Conns} {id : ℕ} {s : Slot}
    (h : lookup slots conns id = some s) : s ∈ slots ∧ conns id = some s.ref := by
  obtain ⟨ref, hconns, hfind⟩ := Option.bind_eq_some_iff.mp h
  exact ⟨mem_of_findSlot hfind, hconns.trans (congrArg some (ref_of_findSlot hfind).symm)⟩

theorem lookup_of_mem {slots : List Slot} (hnd : (slots.map Slot.ref).Nodup) {conns : Conns}
    {id : ℕ} {s : Slot} (hs : s ∈ slots) (hconns : conns id = some s.ref) :
    lookup slots conns id = some s := by
  rw [lookup, hconns]
  exact (findSlot_eq_some_iff hnd).mpr ⟨hs, rfl⟩

/-! ### Changing an object -/

/-- The slot after a change of the object at an address. -/
def modifySlot (ref : ℕ) (f : Connection → Connection) (s : Slot) : Slot :=
  if s.ref = ref then { s with conn := f s.conn } else s

theorem modifyConn_eq_map (slots : List Slot) (ref : ℕ) (f : Connection → Connection) :
    modifyConn slots ref f = slots.map (modifySlot ref f) := rfl

@[simp] theorem ref_modifySlot (ref : ℕ) (f : Connection → Connection) (s : Slot) :
    (modifySlot ref f s).ref = s.ref := by
  unfold modifySlot
  split <;> rfl

theorem modifySlot_self (f : Connection → Connection) (s : Slot) :
    modifySlot s.ref f s = { s with conn := f s.conn } := if_pos rfl

theorem modifySlot_of_eq {ref : ℕ} {s : Slot} (h : s.ref = ref) (f : Connection → Connection) :
    modifySlot ref f s = { s with conn := f s.conn } := if_pos h

theorem modifySlot_of_ne {ref : ℕ} {s : Slot} (h : s.ref ≠ ref) (f : Connection → Connection) :
    modifySlot ref f s = s := if_neg h

/-- A slot of the list and what becomes of it are related as the changed slot is, when every other
slot is related to itself. -/
theorem modifySlot_rel {slots : List Slot} (hnd : (slots.map Slot.ref).Nodup) {s : Slot}
    (hs : s ∈ slots) {f : Connection → Connection} {P : Slot → Slot → Prop}
    (hself : P s { s with conn := f s.conn }) (hother : ∀ t ∈ slots, t.ref ≠ s.ref → P t t)
    {t : Slot} (ht : t ∈ slots) : P t (modifySlot s.ref f t) := by
  by_cases href : t.ref = s.ref
  · rw [eq_of_ref_eq hnd ht hs href, modifySlot_self]
    exact hself
  · rw [modifySlot_of_ne href]
    exact hother t ht href

theorem id_modifySlot {slots : List Slot} (hnd : (slots.map Slot.ref).Nodup) {s : Slot}
    (hs : s ∈ slots) {f : Connection → Connection} (hf : (f s.conn).id = s.conn.id) {t : Slot}
    (ht : t ∈ slots) : (modifySlot s.ref f t).conn.id = t.conn.id :=
  modifySlot_rel hnd hs (P := fun t t' => t'.conn.id = t.conn.id) hf (fun _ _ _ => rfl) ht

theorem map_modifySlot_of_ne {ref : ℕ} {slots : List Slot} (h : ∀ s ∈ slots, s.ref ≠ ref)
    (f : Connection → Connection) : slots.map (modifySlot ref f) = slots :=
  (List.map_congr_left fun s hs => modifySlot_of_ne (h s hs) f).trans (List.map_id _)

@[simp] theorem map_ref_modifyConn (slots : List Slot) (ref : ℕ) (f : Connection → Connection) :
    (modifyConn slots ref f).map Slot.ref = slots.map Slot.ref := by
  simp [modifyConn_eq_map, Function.comp_def]

/-- In a list without repeated addresses exactly one slot changes. -/
theorem modifyConn_eq_append {slots : List Slot} (hnd : (slots.map Slot.ref).Nodup) {s : Slot}
    (hs : s ∈ slots) (f : Connection → Connection) :
    ∃ l₁ l₂, slots = l₁ ++ s :: l₂ ∧
      modifyConn slots s.ref f = l₁ ++ { s with conn := f s.conn } :: l₂ := by
  obtain ⟨l₁, l₂, rfl⟩ := List.append_of_mem hs
  refine ⟨l₁, l₂, rfl, ?_⟩
  simp only [List.map_append, List.map_cons, List.nodup_append, List.nodup_cons, List.mem_map,
    List.mem_cons] at hnd
  obtain ⟨-, ⟨h₂, -⟩, h₁⟩ := hnd
  have hkeep₁ : l₁.map (modifySlot s.ref f) = l₁ :=
    map_modifySlot_of_ne (fun t ht he => h₁ t.ref ⟨t, ht, rfl⟩ s.ref (Or.inl rfl) he) f
  have hkeep₂ : l₂.map (modifySlot s.ref f) = l₂ :=
    map_modifySlot_of_ne (fun t ht he => h₂ ⟨t, ht, he⟩) f
  rw [modifyConn_eq_map, List.map_append, List.map_cons, hkeep₁, hkeep₂, modifySlot_self]

/-! ### Connections by id -/

/-- The last slot whose connection has the given id. -/
def lastWithId (id : ℕ) (slots : List Slot) : Option Slot :=
  (slots.filter fun s => s.conn.id == (id : ℤ)).getLast?

theorem lastWithId_cons (id : ℕ) (s : Slot) (slots : List Slot) :
    lastWithId id (s :: slots) =
      (lastWithId id slots).or (if s.conn.id = id then some s else none) := by
  unfold lastWithId
  by_cases h : s.conn.id = id
  · rw [List.filter_cons_of_pos (by simpa using h), List.getLast?_cons, if_pos h]
    cases (slots.filter fun s => s.conn.id == (id : ℤ)).getLast? <;> rfl
  · rw [List.filter_cons_of_neg (by simpa using h), if_neg h, Option.or_none]

theorem lastWithId_append (id : ℕ) (l₁ l₂ : List Slot) :
    lastWithId id (l₁ ++ l₂) = (lastWithId id l₂).or (lastWithId id l₁) := by
  induction l₁ with
  | nil => simp [lastWithId]
  | cons s l₁ ih => rw [List.cons_append, lastWithId_cons, ih, lastWithId_cons, Option.or_assoc]

theorem mem_of_lastWithId {id : ℕ} {slots : List Slot} {s : Slot}
    (h : lastWithId id slots = some s) : s ∈ slots ∧ s.conn.id = id := by
  have hmem := List.mem_of_getLast? h
  rw [List.mem_filter, beq_iff_eq] at hmem
  exact hmem

theorem lastWithId_eq_none_iff {id : ℕ} {slots : List Slot} :
    lastWithId id slots = none ↔ ∀ s ∈ slots, s.conn.id ≠ id := by
  simp [lastWithId]

/-! ### Sorting -/

/-- How ids are given out: a connection without an id takes the top of the stack. -/
inductive Assigns : List ℤ → List Slot → List ℤ → List Slot → Prop
  | nil (stack : List ℤ) : Assigns stack [] stack []
  | keep {stack stack' : List ℤ} {slots slots' : List Slot} {s : Slot} (hid : 0 ≤ s.conn.id)
      (h : Assigns stack slots stack' slots') : Assigns stack (s :: slots) stack' (s :: slots')
  | wait {stack' : List ℤ} {slots slots' : List Slot} {s : Slot} (hid : s.conn.id < 0)
      (h : Assigns [] slots stack' slots') : Assigns [] (s :: slots) stack' (s :: slots')
  | take {stack stack' : List ℤ} {slots slots' : List Slot} {s : Slot} {id : ℤ}
      (hid : s.conn.id < 0) (h : Assigns stack slots stack' slots') :
      Assigns (id :: stack) (s :: slots) stack'
        ({ s with conn := { s.conn with id := id } } :: slots')

/-- **Sorting gives out ids.** No connection has an id above `MAX_CONNECTIONS`, so the stack serves
the connections that have none. -/
theorem sortConnections_assigns (stack : List ℤ) (slots : List Slot) (sorted : Conns)
    (hids : ∀ s ∈ slots, s.conn.id ≤ 255) :
    Assigns stack slots (sortConnections stack slots sorted).1
      (sortConnections stack slots sorted).2.1 := by
  induction slots generalizing stack sorted with
  | nil => exact .nil stack
  | cons s slots ih =>
    have hrest : ∀ t ∈ slots, t.conn.id ≤ 255 := fun t ht => hids t (List.mem_cons_of_mem _ ht)
    have hs := hids s List.mem_cons_self
    unfold sortConnections
    split_ifs with hid
    · have hneg : s.conn.id < 0 := by simp only [maxConnections] at hid; omega
      cases stack with
      | nil => exact .wait hneg (ih _ _ hrest)
      | cons id stack => exact .take hneg (ih _ _ hrest)
    · exact .keep (by omega) (ih _ _ hrest)

theorem lastWithId_eq_iff_toNat {id : ℤ} (h : 0 ≤ id) (i : ℕ) : id = i ↔ i = id.toNat := by omega

/-- **Sorting points to the last connection with each id.** -/
theorem sortConnections_apply (stack : List ℤ) (slots : List Slot) (sorted : Conns)
    (hids : ∀ s ∈ slots, s.conn.id ≤ 255) (hstack : ∀ id ∈ stack, 0 ≤ id) (i : ℕ) :
    (sortConnections stack slots sorted).2.2 i =
      ((lastWithId i (sortConnections stack slots sorted).2.1).map Slot.ref).or (sorted i) := by
  induction slots generalizing stack sorted with
  | nil => simp [sortConnections, lastWithId]
  | cons s slots ih =>
    have hrest : ∀ t ∈ slots, t.conn.id ≤ 255 := fun t ht => hids t (List.mem_cons_of_mem _ ht)
    have hs := hids s List.mem_cons_self
    -- one entry of the array is set, and later entries with the same id replace it
    have hset : ∀ (t : Slot) (l : List Slot), 0 ≤ t.conn.id →
        ((lastWithId i l).map Slot.ref).or (Function.update sorted t.conn.id.toNat (some t.ref) i)
          = ((lastWithId i (t :: l)).map Slot.ref).or (sorted i) := by
      intro t l ht
      rw [lastWithId_cons]
      by_cases hi : i = t.conn.id.toNat
      · rw [if_pos ((lastWithId_eq_iff_toNat ht i).mpr hi), hi, Function.update_self]
        cases lastWithId t.conn.id.toNat l <;> rfl
      · rw [if_neg (fun he => hi ((lastWithId_eq_iff_toNat ht i).mp he)),
          Function.update_of_ne hi, Option.or_none]
    unfold sortConnections
    split_ifs with hid
    · have hneg : s.conn.id < 0 := by simp only [maxConnections] at hid; omega
      cases stack with
      | nil =>
        dsimp only
        rw [ih [] sorted hrest (by simp), lastWithId_cons, if_neg (by omega), Option.or_none]
      | cons id stack =>
        dsimp only
        rw [ih stack _ hrest fun j hj => hstack j (List.mem_cons_of_mem _ hj)]
        exact hset { s with conn := { s.conn with id := id } } _ (hstack id List.mem_cons_self)
    · dsimp only
      rw [ih stack _ hrest hstack]
      exact hset s _ (by omega)

end OsTasks.PortForwarding
