import Mathlib.Data.List.Nodup
import Mathlib.Data.List.Perm.Basic
import Mathlib.Logic.Function.Basic

/-!
# Ids that are used again

Two parties list connections under ids and send each other messages about them, over two channels
that keep the order of the messages. The id of a connection that is gone is given to a later one, so
a message may arrive when its id is already that of another connection. Tags tell the connections
with the same id apart: a connection keeps its tag, a message has the tag of the connection it is
about, and no party reads a tag.

When an id is given out again only after everything about its earlier connection is gone, there is
one tag for each id at any time, and every message that arrives meets a connection with its own tag.
When moreover a party closes a connection only after all data for it has arrived, data never arrives
for a connection that is not there.

## Main definitions

* `Entry`, `Message`, `World`: what one of the parties sees of both.
* `Sweep`: what a party does first in its turn.
* `Safe`, `Settled`: the invariant, between the turns of a party and within its turn.

## Main results

* `Safe.sweep`: a turn begins.
* `Settled.name`, `Settled.announce`, `Settled.close`, `Settled.tell`, `Settled.say`,
  `Settled.lose`: what a party does in its turn keeps the invariant.
* `Settled.take`, `Settled.closed`, `Settled.opened`, `Settled.refused`: so does taking a message.
* `Settled.tag_eq`, `Settled.lists_of_data`: a message that arrives meets its own connection.
-/

namespace OsTasks.ReusedIds

/-! ### Parties and messages -/

/-- What a message does to the connection it is about. -/
inductive Kind
  | opens
  | closes
  | data
  | other
  deriving DecidableEq

structure Message where
  kind : Kind
  id : ℕ
  tag : ℕ

/-- A connection in the list of a party. An unannounced one has not been opened at the peer yet; a
closed one is about to leave the list. -/
structure Entry where
  id : Option ℕ
  tag : ℕ
  unannounced : Bool
  closed : Bool

/-- Two parties, seen by one of them: what both list, and the messages to the peer and from the
peer, the oldest first. Messages that wait in a queue are among them. -/
structure World where
  mine : List Entry
  theirs : List Entry
  out : List Message
  into : List Message

/-- The same, seen by the peer. -/
def World.swap (w : World) : World := ⟨w.theirs, w.mine, w.into, w.out⟩

/-- The id is that of an open connection in the list. -/
def Tracks (es : List Entry) (i : ℕ) : Prop := ∃ e ∈ es, e.id = some i ∧ e.closed = false

/-- The ids of the connections that the peer has yet to open. -/
def due (es : List Entry) (out : List Message) : List ℕ :=
  (out.filter fun m => m.kind = .opens).map Message.id ++
    (es.filter fun e => e.unannounced && !e.closed).filterMap Entry.id

/-- Nothing is about the id, except closed connections of the peer. -/
structure World.Unused (w : World) (i : ℕ) : Prop where
  mine : ∀ e ∈ w.mine, e.id ≠ some i
  theirs : ¬ Tracks w.theirs i
  out : ∀ m ∈ w.out, m.id ≠ i
  into : ∀ m ∈ w.into, m.id ≠ i

/-! ### The start of a turn -/

/-- What a party does first in its turn: it forgets the closed connections, and may list new ones
without an id. -/
structure Sweep (w w' : World) : Prop where
  mine : ∃ es new, w'.mine = es ++ new ∧ es.Sublist w.mine ∧ (∀ e ∈ es, e.closed = false) ∧
    (∀ e ∈ w.mine, e.closed = false → e ∈ es) ∧ ∀ e ∈ new, e.id = none
  theirs : w'.theirs = w.theirs
  out : w'.out = w.out
  into : w'.into = w.into

/-! ### The invariant -/

/-- What holds of the messages from a party that lists `es` to one that lists `fs`, when `into` are
the messages the other way. -/
structure Sound (T : ℕ → ℕ) (es : List Entry) (out : List Message) (fs : List Entry)
    (into : List Message) : Prop where
  entry_tag : ∀ e ∈ es, e.closed = false → ∀ i, e.id = some i → e.tag = T i
  message_tag : ∀ m ∈ out, m.tag = T m.id
  distinct : (es.filterMap Entry.id).Nodup
  closing : ∀ m ∈ out, m.kind = .closes → ¬ Tracks es m.id
  ordered : out.Pairwise fun m n => m.kind = .closes → n.kind = .data → n.id ≠ m.id
  listed : ∀ l₁ m l₂, out = l₁ ++ m :: l₂ → m.kind = .data →
    Tracks fs m.id ∨ ∃ n ∈ l₁, n.kind = .opens ∧ n.id = m.id
  due_nodup : (due es out).Nodup
  due_free : ∀ i ∈ due es out, ¬ Tracks fs i ∧ ∀ m ∈ into, m.id ≠ i

/-- The invariant between the turns of a party: everything open has the tag that `T` has for its
id. -/
structure Safe (T : ℕ → ℕ) (w : World) : Prop where
  out : Sound T w.mine w.out w.theirs w.into
  into : Sound T w.theirs w.into w.mine w.out

/-- The invariant within the turn of a party, which has forgotten the closed connections of its
earlier turns. -/
structure Settled (T : ℕ → ℕ) (w : World) : Prop extends Safe T w where
  tags : ∀ e ∈ w.mine, ∀ i, e.id = some i → e.tag = T i
  opening : ∀ m ∈ w.into, m.kind = .opens → ∀ e ∈ w.mine, e.id ≠ some m.id

theorem Safe.swap {T : ℕ → ℕ} {w : World} (h : Safe T w) : Safe T w.swap := ⟨h.into, h.out⟩

/-- Both parties list the same connection, and nothing is on its way. -/
theorem safe_single (e : Entry) (hannounced : e.unannounced = false) :
    Safe (fun _ => e.tag) ⟨[e], [e], [], []⟩ := by
  have hdue : due [e] [] = [] := by simp [due, hannounced]
  have hsound : Sound (fun _ => e.tag) [e] [] [e] [] :=
    { entry_tag := fun f hf _ _ _ => by rw [List.mem_singleton.mp hf]
      message_tag := fun _ hm => absurd hm List.not_mem_nil
      distinct := by
        cases hid : e.id <;> simp [hid]
      closing := fun _ hm => absurd hm List.not_mem_nil
      ordered := List.Pairwise.nil
      listed := fun l₁ m l₂ hout => absurd hout.symm (by simp)
      due_nodup := hdue ▸ List.nodup_nil
      due_free := fun i hi => absurd (hdue ▸ hi) List.not_mem_nil }
  exact ⟨hsound, hsound⟩

/-! ### Entries -/

section Entries

variable {es l₁ l₂ : List Entry} {e e' : Entry} {i j : ℕ} {out out' : List Message}

theorem lists_change (hid : e'.id = e.id) (hclosed : e'.closed = e.closed) :
    Tracks (l₁ ++ e' :: l₂) i ↔ Tracks (l₁ ++ e :: l₂) i := by
  simp [Tracks, hid, hclosed, or_and_right, exists_or]

/-- A change that keeps the id and the tag. -/
theorem exists_of_mem_change (hid : e'.id = e.id) (htag : e'.tag = e.tag) {f : Entry}
    (hf : f ∈ l₁ ++ e' :: l₂) : ∃ f' ∈ l₁ ++ e :: l₂, f'.id = f.id ∧ f'.tag = f.tag := by
  rw [List.mem_append, List.mem_cons] at hf
  rcases hf with hf | rfl | hf
  · exact ⟨f, List.mem_append_left _ hf, rfl, rfl⟩
  · exact ⟨e, List.mem_append_right _ List.mem_cons_self, hid.symm, htag.symm⟩
  · exact ⟨f, List.mem_append_right _ (List.mem_cons_of_mem _ hf), rfl, rfl⟩

theorem distinct_change (hid : e'.id = e.id) (h : ((l₁ ++ e :: l₂).filterMap Entry.id).Nodup) :
    ((l₁ ++ e' :: l₂).filterMap Entry.id).Nodup := by
  simpa [List.filterMap_append, List.filterMap_cons, hid] using h

/-- The other connections have other ids. -/
theorem id_ne_of_distinct (h : ((l₁ ++ e :: l₂).filterMap Entry.id).Nodup) (hid : e.id = some i)
    {f : Entry} (hf : f ∈ l₁ ∨ f ∈ l₂) : f.id ≠ some i := by
  intro hfid
  rw [List.filterMap_append, List.filterMap_cons_some hid, List.nodup_append] at h
  obtain ⟨-, hnd₂, hdisj⟩ := h
  rcases hf with hf | hf
  · exact hdisj i (List.mem_filterMap.mpr ⟨f, hf, hfid⟩) i List.mem_cons_self rfl
  · exact (List.nodup_cons.mp hnd₂).1 (List.mem_filterMap.mpr ⟨f, hf, hfid⟩)

/-- After closing a connection its id is not listed. -/
theorem not_lists_close (h : ((l₁ ++ e :: l₂).filterMap Entry.id).Nodup) (hid : e.id = some i) :
    ¬ Tracks (l₁ ++ { e with closed := true } :: l₂) i := by
  rintro ⟨f, hf, hfid, hopen⟩
  rw [List.mem_append, List.mem_cons] at hf
  rcases hf with hf | rfl | hf
  · exact id_ne_of_distinct h hid (.inl hf) hfid
  · exact absurd hopen Bool.noConfusion
  · exact id_ne_of_distinct h hid (.inr hf) hfid

/-- An id stays listed when the entry that changes is not the one that lists it. -/
theorem Tracks.change {e' : Entry} (h : Tracks (l₁ ++ e :: l₂) j)
    (hne : e.id = some j → e.closed = true) : Tracks (l₁ ++ e' :: l₂) j := by
  obtain ⟨f, hf, hfid, hopen⟩ := h
  rw [List.mem_append, List.mem_cons] at hf
  rcases hf with hf | rfl | hf
  · exact ⟨f, List.mem_append_left _ hf, hfid, hopen⟩
  · exact absurd ((hne hfid).symm.trans hopen) Bool.noConfusion
  · exact ⟨f, List.mem_append_right _ (List.mem_cons_of_mem _ hf), hfid, hopen⟩

theorem Tracks.of_close (h : Tracks (l₁ ++ { e with closed := true } :: l₂) j) :
    Tracks (l₁ ++ e :: l₂) j :=
  h.change fun _ => rfl

/-- Closing a connection leaves the other ids listed. -/
theorem Tracks.close (h : Tracks (l₁ ++ e :: l₂) j) (hid : e.id = some i) (hne : j ≠ i) :
    Tracks (l₁ ++ { e with closed := true } :: l₂) j :=
  h.change fun hj => absurd (Option.some.inj (hj.symm.trans hid)) hne

theorem due_sublist (h : out'.Sublist out) : (due es out').Sublist (due es out) :=
  ((h.filter _).map _).append (List.Sublist.refl _)

/-- A message that does not open changes nothing here. -/
theorem due_insert {m : Message} (hm : m.kind ≠ .opens) (out₁ out₂ : List Message) :
    due es (out₁ ++ m :: out₂) = due es (out₁ ++ out₂) := by
  simp [due, List.filter_append, hm]

theorem due_change_sublist (hnone : (e'.unannounced && !e'.closed) = false) :
    (due (l₁ ++ e' :: l₂) out).Sublist (due (l₁ ++ e :: l₂) out) := by
  refine (List.Sublist.refl _).append ?_
  rw [List.filter_append, List.filter_append, List.filterMap_append, List.filterMap_append,
    List.filter_cons_of_neg (by simpa using hnone)]
  refine (List.Sublist.refl _).append (List.Sublist.filterMap _ ?_)
  rw [List.filter_cons]
  split_ifs
  · exact List.sublist_cons_self _ _
  · exact List.Sublist.refl _

/-- An announcement takes the place of the unannounced connection. -/
theorem due_announce (l₁ l₂ : List Entry) (out : List Message) (hid : e.id = some i)
    (hopen : e.closed = false) (hnew : e.unannounced = true) (t : ℕ) :
    (due (l₁ ++ { e with unannounced := false } :: l₂) (out ++ [⟨.opens, i, t⟩])).Perm
      (due (l₁ ++ e :: l₂) out) := by
  have hleft : due (l₁ ++ { e with unannounced := false } :: l₂) (out ++ [⟨.opens, i, t⟩]) =
      (out.filter fun m => m.kind = .opens).map Message.id ++ i ::
        ((l₁.filter fun e => e.unannounced && !e.closed).filterMap Entry.id ++
          (l₂.filter fun e => e.unannounced && !e.closed).filterMap Entry.id) := by
    simp [due, List.filter_append]
  have hright : due (l₁ ++ e :: l₂) out =
      (out.filter fun m => m.kind = .opens).map Message.id ++
        ((l₁.filter fun e => e.unannounced && !e.closed).filterMap Entry.id ++ i ::
          (l₂.filter fun e => e.unannounced && !e.closed).filterMap Entry.id) := by
    simp [due, List.filter_append, hopen, hnew, hid]
  rw [hleft, hright]
  exact List.Perm.append_left _ List.perm_middle.symm

/-- A connection that gets an id may have to be announced. -/
theorem due_name (l₁ l₂ : List Entry) (out : List Message) (i : ℕ) (hid : e.id = none) :
    due (l₁ ++ { e with id := some i } :: l₂) out = due (l₁ ++ e :: l₂) out ∨
      (due (l₁ ++ { e with id := some i } :: l₂) out).Perm (i :: due (l₁ ++ e :: l₂) out) := by
  unfold due
  rw [List.filter_append, List.filter_append, List.filter_cons, List.filter_cons]
  split_ifs
  · right
    rw [List.filterMap_append, List.filterMap_append,
      List.filterMap_cons_some (show Entry.id { e with id := some i } = some i from rfl),
      List.filterMap_cons_none hid]
    exact (List.Perm.append_left _ List.perm_middle).trans List.perm_middle
  · exact .inl rfl

theorem lists_name (hid : e.id = none) (hne : j ≠ i) :
    Tracks (l₁ ++ { e with id := some i } :: l₂) j ↔ Tracks (l₁ ++ e :: l₂) j := by
  simp [Tracks, hid, hne.symm, or_and_right, exists_or]

theorem lists_concat (es : List Entry) (i j t : ℕ) :
    Tracks (es ++ [⟨some i, t, false, false⟩]) j ↔ Tracks es j ∨ j = i := by
  constructor
  · rintro ⟨e, he, hid, hopen⟩
    rw [List.mem_append, List.mem_singleton] at he
    rcases he with he | rfl
    · exact .inl ⟨e, he, hid, hopen⟩
    · exact .inr (Option.some.inj hid).symm
  · rintro (⟨e, he, hid, hopen⟩ | rfl)
    · exact ⟨e, List.mem_append_left _ he, hid, hopen⟩
    · exact ⟨_, List.mem_append_right _ (List.mem_singleton_self _), rfl, rfl⟩

theorem not_mem_due (hes : ∀ e ∈ es, e.closed = false → e.id ≠ some i)
    (hout : ∀ m ∈ out, m.id ≠ i) : i ∉ due es out := by
  intro hi
  rcases List.mem_append.mp hi with hi | hi
  · obtain ⟨m, hm, rfl⟩ := List.mem_map.mp hi
    exact hout m (List.mem_filter.mp hm).1 rfl
  · obtain ⟨f, hf, hfid⟩ := List.mem_filterMap.mp hi
    obtain ⟨hf, hopen⟩ := List.mem_filter.mp hf
    rw [Bool.and_eq_true, Bool.not_eq_true'] at hopen
    exact hes f hf hopen.2 hfid

theorem mem_due_of_opens {m : Message} (hm : m ∈ out) (hkind : m.kind = .opens) :
    m.id ∈ due es out :=
  List.mem_append_left _ (List.mem_map_of_mem (List.mem_filter.mpr ⟨hm, by simpa using hkind⟩))

end Entries

/-! ### One direction -/

section Direction

variable {T : ℕ → ℕ} {es es' fs fs' : List Entry} {out into into' : List Message} {i : ℕ}

/-- A change at the receiver. -/
theorem Sound.receiver (h : Sound T es out fs into)
    (hlisted : ∀ m ∈ out, m.kind = .data → Tracks fs m.id → Tracks fs' m.id)
    (hdue : ∀ i ∈ due es out, ¬ Tracks fs' i ∧ ∀ m ∈ into', m.id ≠ i) :
    Sound T es out fs' into' where
  entry_tag := h.entry_tag
  message_tag := h.message_tag
  distinct := h.distinct
  closing := h.closing
  ordered := h.ordered
  listed l₁ m l₂ hl hkind := (h.listed l₁ m l₂ hl hkind).imp_left
    (hlisted m (hl ▸ List.mem_append_right _ List.mem_cons_self) hkind)
  due_nodup := h.due_nodup
  due_free := hdue

/-- The receiver has taken the oldest message. -/
theorem Sound.tail {m : Message} (h : Sound T es (m :: out) fs into)
    (hlisted : ∀ n ∈ out, n.kind = .data → Tracks fs n.id ∨ m.kind = .opens ∧ m.id = n.id →
      Tracks fs' n.id)
    (hdue : ∀ i ∈ due es out, ¬ Tracks fs' i ∧ ∀ n ∈ into', n.id ≠ i) :
    Sound T es out fs' into' where
  entry_tag := h.entry_tag
  message_tag := fun n hn => h.message_tag n (List.mem_cons_of_mem _ hn)
  distinct := h.distinct
  closing := fun n hn => h.closing n (List.mem_cons_of_mem _ hn)
  ordered := (List.pairwise_cons.mp h.ordered).2
  listed l₁ n l₂ hl hkind := by
    have hn : n ∈ out := hl ▸ List.mem_append_right _ List.mem_cons_self
    rcases h.listed (m :: l₁) n l₂ (by rw [hl, List.cons_append]) hkind with hfs | ⟨o, ho, hopens⟩
    · exact .inl (hlisted n hn hkind (.inl hfs))
    · rcases List.mem_cons.mp ho with rfl | ho
      · exact .inl (hlisted n hn hkind (.inr hopens))
      · exact .inr ⟨o, ho, hopens⟩
  due_nodup := h.due_nodup.sublist (due_sublist (List.sublist_cons_self _ _))
  due_free := hdue

/-- A change of the sender's list. -/
theorem Sound.sender (h : Sound T es out fs into)
    (htag : ∀ e ∈ es', e.closed = false → ∀ i, e.id = some i → e.tag = T i)
    (hdistinct : (es'.filterMap Entry.id).Nodup)
    (hclosing : ∀ m ∈ out, m.kind = .closes → ¬ Tracks es' m.id)
    (hdue : (due es' out).Sublist (due es out)) : Sound T es' out fs into where
  entry_tag := htag
  message_tag := h.message_tag
  distinct := hdistinct
  closing := hclosing
  ordered := h.ordered
  listed := h.listed
  due_nodup := h.due_nodup.sublist hdue
  due_free i hi := h.due_free i (hdue.subset hi)

/-- Another tag for an id that nothing is about. -/
theorem Sound.retag (h : Sound T es out fs into) (t : ℕ)
    (hes : ∀ e ∈ es, e.closed = false → e.id ≠ some i) (hout : ∀ m ∈ out, m.id ≠ i) :
    Sound (Function.update T i t) es out fs into where
  entry_tag e he hopen j hj := by
    have hne : j ≠ i := by
      rintro rfl
      exact hes e he hopen hj
    rw [Function.update_of_ne hne]
    exact h.entry_tag e he hopen j hj
  message_tag m hm := by
    rw [Function.update_of_ne (hout m hm)]
    exact h.message_tag m hm
  distinct := h.distinct
  closing := h.closing
  ordered := h.ordered
  listed := h.listed
  due_nodup := h.due_nodup
  due_free := h.due_free

/-- A message is added. Behind one that closes there is no data for its connection. -/
theorem Sound.insert {out₁ out₂ : List Message} (h : Sound T es (out₁ ++ out₂) fs into)
    {m : Message} (htag : m.tag = T m.id)
    (hclosing : m.kind = .closes → ¬ Tracks es m.id ∧ ∀ n ∈ out₂, n.kind = .data → n.id ≠ m.id)
    (hdata : m.kind = .data → Tracks es m.id ∧
      (Tracks fs m.id ∨ ∃ n ∈ out₁, n.kind = .opens ∧ n.id = m.id))
    (hnodup : (due es (out₁ ++ m :: out₂)).Nodup)
    (hfree : ∀ i ∈ due es (out₁ ++ m :: out₂), ¬ Tracks fs i ∧ ∀ n ∈ into, n.id ≠ i) :
    Sound T es (out₁ ++ m :: out₂) fs into where
  entry_tag := h.entry_tag
  message_tag n hn := by
    rw [List.mem_append, List.mem_cons, or_left_comm, ← List.mem_append] at hn
    rcases hn with rfl | hn
    · exact htag
    · exact h.message_tag n hn
  distinct := h.distinct
  closing n hn hkind := by
    rw [List.mem_append, List.mem_cons, or_left_comm, ← List.mem_append] at hn
    rcases hn with rfl | hn
    · exact (hclosing hkind).1
    · exact h.closing n hn hkind
  ordered := by
    obtain ⟨h₁, h₂, hbetween⟩ := List.pairwise_append.mp h.ordered
    refine List.pairwise_append.mpr
      ⟨h₁, List.pairwise_cons.mpr ⟨fun n hn hkind => (hclosing hkind).2 n hn, h₂⟩,
        fun n hn o ho hkind hokind => ?_⟩
    rcases List.mem_cons.mp ho with rfl | ho
    · -- data is only sent for a connection that has not been closed
      intro hid
      exact h.closing n (List.mem_append_left _ hn) hkind (hid ▸ (hdata hokind).1)
    · exact hbetween n hn o ho hkind hokind
  listed l₁ n l₂ hl hkind := by
    rcases List.append_eq_append_iff.mp hl with ⟨r, rfl, hr⟩ | ⟨r, rfl, hr⟩
    · cases r with
      | nil =>
        obtain ⟨rfl, -⟩ := List.cons.inj hr
        rw [List.append_nil]
        exact (hdata hkind).2
      | cons o r =>
        obtain ⟨rfl, rfl⟩ := List.cons.inj hr
        refine (h.listed (out₁ ++ r) n l₂ (by simp) hkind).imp_right ?_
        rintro ⟨p, hp, hopens⟩
        rw [List.mem_append] at hp
        exact ⟨p, by simp only [List.mem_append, List.mem_cons]; tauto, hopens⟩
    · cases r with
      | nil =>
        obtain ⟨rfl, -⟩ := List.cons.inj hr
        rw [List.append_nil] at hdata
        exact (hdata hkind).2
      | cons o r =>
        obtain ⟨rfl, rfl⟩ := List.cons.inj hr
        exact h.listed l₁ n (r ++ out₂) (by simp) hkind
  due_nodup := hnodup
  due_free := hfree

/-- A message that does not open is added at the end. -/
theorem Sound.concat (h : Sound T es out fs into) {m : Message} (htag : m.tag = T m.id)
    (hkind : m.kind = .other ∨ m.kind = .closes ∧ ¬ Tracks es m.id) :
    Sound T es (out ++ [m]) fs into := by
  have hopens : m.kind ≠ .opens := by
    rcases hkind with hkind | ⟨hkind, -⟩ <;> rw [hkind] <;> decide
  have hdue : due es (out ++ [m]) = due es out := by
    rw [due_insert hopens, List.append_nil]
  refine Sound.insert (by rwa [List.append_nil]) htag (fun hcloses => ?_) (fun hdata => ?_)
    (hdue ▸ h.due_nodup) (hdue ▸ h.due_free)
  · rcases hkind with hkind | ⟨-, hnot⟩
    · exact absurd (hkind.symm.trans hcloses) (by decide)
    · exact ⟨hnot, fun n hn => absurd hn List.not_mem_nil⟩
  · rcases hkind with hkind | ⟨hkind, -⟩ <;> exact absurd (hkind.symm.trans hdata) (by decide)

/-- A message is lost, with no data behind it. -/
theorem Sound.lose {m : Message} {out₁ out₂ : List Message}
    (h : Sound T es (out₁ ++ m :: out₂) fs into) (hdata : ∀ n ∈ out₂, n.kind ≠ .data) :
    Sound T es (out₁ ++ out₂) fs into := by
  have hsub : (out₁ ++ out₂).Sublist (out₁ ++ m :: out₂) :=
    (List.Sublist.refl _).append (List.sublist_cons_self _ _)
  refine
    { entry_tag := h.entry_tag
      message_tag := fun n hn => h.message_tag n (hsub.subset hn)
      distinct := h.distinct
      closing := fun n hn => h.closing n (hsub.subset hn)
      ordered := h.ordered.sublist hsub
      listed := fun l₁ n l₂ hl hkind => ?_
      due_nodup := h.due_nodup.sublist (due_sublist hsub)
      due_free := fun i hi => h.due_free i ((due_sublist hsub).subset hi) }
  rcases List.append_eq_append_iff.mp hl with ⟨r, -, hr⟩ | ⟨r, rfl, hr⟩
  · exact absurd hkind (hdata n (hr ▸ List.mem_append_right _ List.mem_cons_self))
  · cases r with
    | nil =>
      rw [List.nil_append] at hr
      exact absurd hkind (hdata n (hr ▸ List.mem_cons_self))
    | cons o r =>
      obtain ⟨rfl, rfl⟩ := List.cons.inj hr
      exact h.listed l₁ n (r ++ m :: out₂) (by simp) hkind

end Direction

/-! ### Turns -/

section Turns

variable {T : ℕ → ℕ} {w w' : World}

/-- **The turn of a party begins** by forgetting the closed connections. -/
theorem Safe.sweep (h : Safe T w) (hsweep : Sweep w w') : Settled T w' := by
  obtain ⟨mine', theirs', out', into'⟩ := w'
  obtain ⟨⟨es, new, hmine, hsub, hes, hkept, hnew⟩, rfl, rfl, rfl⟩ := hsweep
  dsimp only at hmine
  subst hmine
  have hlists : ∀ i, Tracks (es ++ new) i ↔ Tracks w.mine i := by
    refine fun i => ⟨?_, fun ⟨e, he, hid, hopen⟩ => ⟨e, ?_, hid, hopen⟩⟩
    · rintro ⟨e, he, hid, hopen⟩
      rcases List.mem_append.mp he with he | he
      · exact ⟨e, hsub.subset he, hid, hopen⟩
      · exact absurd ((hnew e he).symm.trans hid) (Option.some_ne_none i).symm
    · exact List.mem_append_left _ (hkept e he hopen)
  have hids : new.filterMap Entry.id = [] := List.filterMap_eq_nil_iff.mpr hnew
  have hdue : (due (es ++ new) w.out).Sublist (due w.mine w.out) := by
    refine (List.Sublist.refl _).append ?_
    rw [List.filter_append, List.filterMap_append,
      List.filterMap_eq_nil_iff.mpr fun e he => hnew e (List.mem_filter.mp he).1, List.append_nil]
    exact (hsub.filter _).filterMap _
  have htags : ∀ e ∈ es ++ new, ∀ i, e.id = some i → e.tag = T i := by
    intro e he i hid
    rcases List.mem_append.mp he with he | he
    · exact h.out.entry_tag e (hsub.subset he) (hes e he) i hid
    · exact absurd ((hnew e he).symm.trans hid) (Option.some_ne_none i).symm
  exact
    { out := h.out.sender (fun e he _ => htags e he)
        (by
          rw [List.filterMap_append, hids, List.append_nil]
          exact h.out.distinct.sublist (hsub.filterMap _))
        (fun m hm hkind hl => h.out.closing m hm hkind ((hlists _).mp hl)) hdue
      into := h.into.receiver (fun m _ _ => (hlists m.id).mpr) fun i hi =>
        ⟨fun hl => (h.into.due_free i hi).1 ((hlists i).mp hl), (h.into.due_free i hi).2⟩
      tags := htags
      opening := fun m hm hkind e he hid => by
        refine (h.into.due_free m.id (mem_due_of_opens hm hkind)).1 ((hlists _).mp ?_)
        rcases List.mem_append.mp he with he' | he'
        · exact ⟨e, he, hid, hes e he'⟩
        · exact absurd ((hnew e he').symm.trans hid) (Option.some_ne_none _).symm }

variable {l₁ l₂ : List Entry} {e : Entry} {i : ℕ}

/-- A connection gets an id, whose tag is then its own. -/
theorem Settled.name (h : Settled T w) (hmine : w.mine = l₁ ++ e :: l₂) (hid : e.id = none)
    (hunused : w.Unused i) :
    Settled (Function.update T i e.tag)
      { w with mine := l₁ ++ { e with id := some i } :: l₂ } := by
  have hmem : ∀ f ∈ l₁ ++ { e with id := some i } :: l₂,
      f = { e with id := some i } ∨ f ∈ w.mine := by
    intro f hf
    rw [hmine]
    rw [List.mem_append, List.mem_cons] at hf ⊢
    tauto
  have htags : ∀ f ∈ l₁ ++ { e with id := some i } :: l₂, ∀ j, f.id = some j →
      f.tag = Function.update T i e.tag j := by
    intro f hf j hj
    rcases hmem f hf with rfl | hf'
    · obtain rfl := Option.some.inj hj
      rw [Function.update_self]
    · have hne : j ≠ i := fun hji => hunused.mine f hf' (hji ▸ hj)
      rw [Function.update_of_ne hne]
      exact h.tags f hf' j hj
  have hlists : ∀ j, j ≠ i → (Tracks (l₁ ++ { e with id := some i } :: l₂) j ↔ Tracks w.mine j) :=
    fun j hj => hmine ▸ lists_name hid hj
  have hdistinct : ((l₁ ++ { e with id := some i } :: l₂).filterMap Entry.id).Nodup := by
    have hold := h.out.distinct
    have hi : i ∉ w.mine.filterMap Entry.id := by
      rw [List.mem_filterMap]
      exact fun ⟨f, hf, hfid⟩ => hunused.mine f hf hfid
    rw [hmine, List.filterMap_append, List.filterMap_cons_none hid] at hold hi
    rw [List.filterMap_append,
      List.filterMap_cons_some (show Entry.id { e with id := some i } = some i from rfl),
      List.perm_middle.nodup_iff]
    exact List.nodup_cons.mpr ⟨hi, hold⟩
  have hdue := hmine ▸ due_name l₁ l₂ w.out i hid
  have hidue : i ∉ due w.mine w.out := not_mem_due (fun f hf _ => hunused.mine f hf) hunused.out
  have htheirs : ∀ f ∈ w.theirs, f.closed = false → f.id ≠ some i :=
    fun f hf hopen hfid => hunused.theirs ⟨f, hf, hfid, hopen⟩
  have hthere := h.out.retag e.tag (fun f hf _ => hunused.mine f hf) hunused.out
  have hback := h.into.retag e.tag htheirs hunused.into
  exact
    { out :=
        { hthere with
          entry_tag := fun f hf _ => htags f hf
          distinct := hdistinct
          closing := fun m hm hkind hl =>
            h.out.closing m hm hkind ((hlists _ (hunused.out m hm)).mp hl)
          due_nodup := by
            rcases hdue with hdue | hdue
            · exact hdue ▸ h.out.due_nodup
            · exact hdue.nodup_iff.mpr (List.nodup_cons.mpr ⟨hidue, h.out.due_nodup⟩)
          due_free := fun j hj => by
            have hj : j = i ∨ j ∈ due w.mine w.out := by
              rcases hdue with hdue | hdue
              · exact .inr (hdue ▸ hj)
              · exact List.mem_cons.mp (hdue.mem_iff.mp hj)
            rcases hj with rfl | hj
            · exact ⟨hunused.theirs, hunused.into⟩
            · exact h.out.due_free j hj }
      into := hback.receiver
        (fun m hm _ => (hlists m.id (hunused.into m hm)).mpr) fun j hj => by
          have hne : j ≠ i := fun hji => not_mem_due htheirs hunused.into (hji ▸ hj)
          exact ⟨fun hl => (h.into.due_free j hj).1 ((hlists j hne).mp hl),
            (h.into.due_free j hj).2⟩
      tags := htags
      opening := fun m hm hkind f hf hfid => by
        rcases hmem f hf with rfl | hf'
        · exact hunused.into m hm (Option.some.inj hfid).symm
        · exact h.opening m hm hkind f hf' hfid }

/-- Another id stays unused. -/
theorem World.Unused.name {j : ℕ} (h : w.Unused j) (hmine : w.mine = l₁ ++ e :: l₂) (hne : i ≠ j) :
    World.Unused { w with mine := l₁ ++ { e with id := some i } :: l₂ } j where
  mine f hf hfid := by
    rw [List.mem_append, List.mem_cons] at hf
    rcases hf with hf | rfl | hf
    · exact h.mine f (hmine ▸ List.mem_append_left _ hf) hfid
    · exact hne (Option.some.inj hfid)
    · exact h.mine f (hmine ▸ List.mem_append_right _ (List.mem_cons_of_mem e hf)) hfid
  theirs := h.theirs
  out := h.out
  into := h.into

/-- What is said about a listed connection is not about one that the peer has yet to announce. -/
theorem Safe.ne_of_due (h : Safe T w) (hi : Tracks w.mine i) {j : ℕ}
    (hj : j ∈ due w.theirs w.into) : i ≠ j :=
  fun hij => (h.into.due_free j hj).1 (hij ▸ hi)

/-- Neither is what is said about it next. -/
theorem Safe.ne_of_due_concat (h : Safe T w) {m : Message} (hi : Tracks w.mine m.id) {j : ℕ}
    (hj : j ∈ due w.theirs w.into) : ∀ n ∈ w.out ++ [m], n.id ≠ j := by
  intro n hn
  rcases List.mem_append.mp hn with hn | hn
  · exact (h.into.due_free j hj).2 n hn
  · rw [List.mem_singleton.mp hn]
    exact h.ne_of_due hi hj

/-- A change that keeps the id and the tag, within the turn of the party. -/
theorem Settled.change {fs : List Entry} {out into : List Message}
    (h : Settled T ⟨l₁ ++ e :: l₂, fs, out, into⟩) (e' : Entry) (hid : e'.id = e.id)
    (htag : e'.tag = e.tag) :
    (∀ f ∈ l₁ ++ e' :: l₂, ∀ j, f.id = some j → f.tag = T j) ∧
      ∀ m ∈ into, m.kind = .opens → ∀ f ∈ l₁ ++ e' :: l₂, f.id ≠ some m.id := by
  constructor
  · intro f hf j hj
    obtain ⟨f', hf', hfid, hftag⟩ := exists_of_mem_change hid htag hf
    exact hftag ▸ h.tags f' hf' j (hfid.trans hj)
  · intro m hm hkind f hf hfid
    obtain ⟨f', hf', hfid', -⟩ := exists_of_mem_change hid htag hf
    exact h.opening m hm hkind f' hf' (hfid'.trans hfid)

/-- A new connection is announced. -/
theorem Settled.announce (h : Settled T w) (hmine : w.mine = l₁ ++ e :: l₂) (hid : e.id = some i)
    (hopen : e.closed = false) (hnew : e.unannounced = true) :
    Settled T { w with
      mine := l₁ ++ { e with unannounced := false } :: l₂
      out := w.out ++ [⟨.opens, i, e.tag⟩] } := by
  obtain ⟨mine, theirs, out, into⟩ := w
  dsimp only at hmine
  subst hmine
  have he : e ∈ l₁ ++ e :: l₂ := List.mem_append_right _ List.mem_cons_self
  have hlists : ∀ j, Tracks (l₁ ++ { e with unannounced := false } :: l₂) j ↔
      Tracks (l₁ ++ e :: l₂) j := fun j => lists_change rfl rfl
  obtain ⟨htags, hopening⟩ := h.change { e with unannounced := false } rfl rfl
  have hperm := due_announce l₁ l₂ out hid hopen hnew e.tag
  have hsender := h.out.sender (fun f hf _ => htags f hf)
    (distinct_change (e := e) rfl h.out.distinct)
    (fun m hm hkind hl => h.out.closing m hm hkind ((hlists _).mp hl)) (due_change_sublist rfl)
  exact
    { out := by
        refine Sound.insert (by rwa [List.append_nil]) (h.tags e he i hid)
          (fun hkind => nomatch hkind) (fun hkind => nomatch hkind)
          (hperm.nodup_iff.mpr h.out.due_nodup)
          fun j hj => h.out.due_free j (hperm.mem_iff.mp hj)
      into := h.into.receiver (fun m _ _ => (hlists m.id).mpr) fun j hj => by
        refine ⟨fun hl => (h.into.due_free j hj).1 ((hlists j).mp hl), ?_⟩
        exact h.toSafe.ne_of_due_concat ⟨e, he, hid, hopen⟩ hj
      tags := htags
      opening := hopening }

/-- A connection is closed. -/
theorem Settled.close (h : Settled T w) (hmine : w.mine = l₁ ++ e :: l₂) (hid : e.id = some i)
    (hopen : e.closed = false) (hdata : ∀ m ∈ w.into, m.kind = .data → m.id ≠ i) :
    Settled T { w with
      mine := l₁ ++ { e with closed := true } :: l₂
      out := w.out ++ [⟨.closes, i, e.tag⟩] } := by
  obtain ⟨mine, theirs, out, into⟩ := w
  dsimp only at hmine hdata
  subst hmine
  have he : e ∈ l₁ ++ e :: l₂ := List.mem_append_right _ List.mem_cons_self
  obtain ⟨htags, hopening⟩ := h.change { e with closed := true } rfl rfl
  have hsender := h.out.sender (fun f hf _ => htags f hf)
    (distinct_change (e := e) rfl h.out.distinct)
    (fun m hm hkind hl => h.out.closing m hm hkind hl.of_close)
    (due_change_sublist (Bool.and_false _))
  exact
    { out := hsender.concat (h.tags e he i hid) (.inr ⟨rfl, not_lists_close h.out.distinct hid⟩)
      into := h.into.receiver (fun m hm hkind hl => hl.close hid (hdata m hm hkind)) fun j hj => by
        refine ⟨fun hl => (h.into.due_free j hj).1 hl.of_close, ?_⟩
        exact h.toSafe.ne_of_due_concat ⟨e, he, hid, hopen⟩ hj
      tags := htags
      opening := hopening }

/-- Something is added to what the party says about a listed connection. -/
theorem Settled.add (h : Settled T w) (hi : Tracks w.mine i) {m : Message} (hm : m.id = i)
    {out' : List Message} (hmem : ∀ n ∈ out', n = m ∨ n ∈ w.out)
    (hout : Sound T w.mine out' w.theirs w.into) : Settled T { w with out := out' } where
  out := hout
  into := h.into.receiver (fun _ _ _ hl => hl) fun j hj => by
    refine ⟨(h.into.due_free j hj).1, fun n hn => ?_⟩
    rcases hmem n hn with rfl | hn
    · exact hm ▸ h.toSafe.ne_of_due hi hj
    · exact (h.into.due_free j hj).2 n hn
  tags := h.tags
  opening := h.opening

/-- Something else is announced. -/
theorem Settled.tell (h : Settled T w) (he : e ∈ w.mine) (hid : e.id = some i)
    (hopen : e.closed = false) : Settled T { w with out := w.out ++ [⟨.other, i, e.tag⟩] } := by
  refine h.add (m := ⟨.other, i, e.tag⟩) ⟨e, he, hid, hopen⟩ rfl (fun n hn => ?_)
    (h.out.concat (h.tags e he i hid) (.inl rfl))
  rw [List.mem_append, List.mem_singleton] at hn
  exact hn.symm

/-- Data is sent. -/
theorem Settled.say {out₁ out₂ : List Message} (h : Settled T w) (he : e ∈ w.mine)
    (hid : e.id = some i) (hopen : e.closed = false) (hout : w.out = out₁ ++ out₂)
    (hpeer : Tracks w.theirs i ∨ ∃ n ∈ out₁, n.kind = .opens ∧ n.id = i) :
    Settled T { w with out := out₁ ++ ⟨.data, i, e.tag⟩ :: out₂ } := by
  have hdue : due w.mine (out₁ ++ ⟨.data, i, e.tag⟩ :: out₂) = due w.mine w.out := by
    rw [due_insert (m := ⟨.data, i, e.tag⟩) (fun hkind => nomatch hkind), hout]
  refine h.add (m := ⟨.data, i, e.tag⟩) ⟨e, he, hid, hopen⟩ rfl (fun n hn => ?_)
    (Sound.insert (hout ▸ h.out) (h.tags e he i hid) (fun hkind => nomatch hkind)
      (fun _ => ⟨⟨e, he, hid, hopen⟩, hpeer⟩) (hdue ▸ h.out.due_nodup) (hdue ▸ h.out.due_free))
  rw [hout, List.mem_append]
  rw [List.mem_append, List.mem_cons] at hn
  tauto

/-- A message is lost. -/
theorem Settled.lose {m : Message} {out₁ out₂ : List Message} (h : Settled T w)
    (hout : w.out = out₁ ++ m :: out₂) (hdata : ∀ n ∈ out₂, n.kind ≠ .data) :
    Settled T { w with out := out₁ ++ out₂ } where
  out := Sound.lose (hout ▸ h.out) hdata
  into := h.into.receiver (fun _ _ _ hl => hl) fun j hj => by
    refine ⟨(h.into.due_free j hj).1, fun n hn => (h.into.due_free j hj).2 n ?_⟩
    rw [hout]
    rw [List.mem_append] at hn
    exact List.mem_append.mpr (hn.imp_right (List.mem_cons_of_mem m))
  tags := h.tags
  opening := h.opening

variable {m : Message} {rest reply : List Message}

/-- Taking the oldest message leaves what is there for the others. -/
theorem Settled.behind (h : Settled T w) (hinto : w.into = m :: rest) :
    Sound T w.mine w.out w.theirs rest := by
  refine h.out.receiver (fun _ _ _ hl => hl) fun j hj =>
    ⟨(h.out.due_free j hj).1, fun n hn => (h.out.due_free j hj).2 n ?_⟩
  rw [hinto]
  exact List.mem_cons_of_mem m hn

/-- A message is taken that changes nothing here. -/
theorem Settled.take (h : Settled T w) (hinto : w.into = m :: rest)
    (hkind : m.kind ≠ .opens) : Settled T { w with into := rest } := by
  have hinto' := hinto ▸ h.into
  exact
    { out := h.behind hinto
      into := hinto'.tail
        (fun n _ _ hl => hl.resolve_right fun hopens => hkind hopens.1) fun j hj =>
          hinto'.due_free j ((due_sublist (List.sublist_cons_self m rest)).subset hj)
      tags := h.tags
      opening := fun n hn => h.opening n (hinto ▸ List.mem_cons_of_mem m hn) }

/-- The peer has closed a connection. -/
theorem Settled.closed (h : Settled T w) (hinto : w.into = m :: rest) (hkind : m.kind = .closes)
    (hmine : w.mine = l₁ ++ e :: l₂) (hid : e.id = some m.id) :
    Settled T { w with mine := l₁ ++ { e with closed := true } :: l₂, into := rest } := by
  have hrest := h.behind hinto
  obtain ⟨mine, theirs, out, into⟩ := w
  dsimp only at hmine hinto hrest
  subst hmine hinto
  obtain ⟨htags, hopening⟩ := h.change { e with closed := true } rfl rfl
  exact
    { out := hrest.sender (fun f hf _ => htags f hf) (distinct_change (e := e) rfl h.out.distinct)
        (fun n hn hcloses hl => h.out.closing n hn hcloses hl.of_close)
        (due_change_sublist (Bool.and_false _))
      into := by
        refine h.into.tail (fun n hn hdata hl => ?_) fun j hj => ?_
        · -- the peer has sent no data behind the message
          have hne := (List.pairwise_cons.mp h.into.ordered).1 n hn hkind hdata
          rcases hl with hl | ⟨hopens, -⟩
          · exact hl.close hid hne
          · exact absurd (hkind.symm.trans hopens) (by decide)
        · have hfree := h.into.due_free j ((due_sublist (List.sublist_cons_self m rest)).subset hj)
          exact ⟨fun hl => hfree.1 hl.of_close, hfree.2⟩
      tags := htags
      opening := fun n hn => hopening n (List.mem_cons_of_mem m hn) }

/-- What is due behind a message that opens is about other ids. -/
theorem Settled.ne_of_due_rest (h : Settled T w) (hinto : w.into = m :: rest)
    (hkind : m.kind = .opens) {j : ℕ} (hj : j ∈ due w.theirs rest) : m.id ≠ j := by
  have hnd := (hinto ▸ h.into).due_nodup
  have hdue : due w.theirs (m :: rest) = m.id :: due w.theirs rest := by
    simp [due, hkind]
  rw [hdue, List.nodup_cons] at hnd
  exact fun hij => hnd.1 (hij ▸ hj)

/-- Neither is what the party says then about the same id. -/
theorem Settled.ne_of_due_reply (h : Settled T w) (hinto : w.into = m :: rest)
    (hkind : m.kind = .opens) {n' : Message} (hreply : reply = [] ∨ reply = [n'])
    (hid : n'.id = m.id) {j : ℕ} (hj : j ∈ due w.theirs rest) :
    ∀ n ∈ w.out ++ reply, n.id ≠ j := by
  have hfree := (hinto ▸ h.into).due_free j
    ((due_sublist (List.sublist_cons_self m rest)).subset hj)
  intro n hn
  rcases List.mem_append.mp hn with hn | hn
  · exact hfree.2 n hn
  · rcases hreply with rfl | rfl
    · exact absurd hn List.not_mem_nil
    · rw [List.mem_singleton.mp hn, hid]
      exact h.ne_of_due_rest hinto hkind hj

/-- A connection of the peer is opened. -/
theorem Settled.opened (h : Settled T w) (hinto : w.into = m :: rest) (hkind : m.kind = .opens)
    (hmine : ∀ e ∈ w.mine, e.id ≠ some m.id)
    (hreply : reply = [] ∨ reply = [⟨.other, m.id, m.tag⟩]) :
    Settled T { w with
      mine := w.mine ++ [⟨some m.id, m.tag, false, false⟩]
      out := w.out ++ reply
      into := rest } := by
  let new : Entry := ⟨some m.id, m.tag, false, false⟩
  have hm : m ∈ w.into := hinto ▸ List.mem_cons_self
  have htag : m.tag = T m.id := h.into.message_tag m hm
  have hfree := h.into.due_free m.id (mem_due_of_opens hm hkind)
  have hinto' := hinto ▸ h.into
  have htags : ∀ f ∈ w.mine ++ [new], ∀ j, f.id = some j → f.tag = T j := by
    intro f hf j hj
    rw [List.mem_append, List.mem_singleton] at hf
    rcases hf with hf | rfl
    · exact h.tags f hf j hj
    · obtain rfl := Option.some.inj hj
      exact htag
  have hlists := fun j => lists_concat w.mine m.id j m.tag
  have hdistinct : ((w.mine ++ [new]).filterMap Entry.id).Nodup := by
    rw [List.filterMap_append, List.nodup_append]
    refine ⟨h.out.distinct, List.nodup_singleton _, fun j hj k hk hjk => ?_⟩
    obtain ⟨f, hf, hfid⟩ := List.mem_filterMap.mp hj
    rw [List.mem_singleton.mp hk] at hjk
    exact hmine f hf (hjk ▸ hfid)
  have hdue : due (w.mine ++ [new]) w.out = due w.mine w.out := by
    simp [due, List.filter_append, new]
  have hsender : Sound T (w.mine ++ [new]) w.out w.theirs rest :=
    (h.behind hinto).sender (fun f hf _ => htags f hf) hdistinct
      (fun n hn hcloses hl => ((hlists _).mp hl).elim (h.out.closing n hn hcloses)
        (hfree.2 n hn)) (hdue ▸ List.Sublist.refl _)
  exact
    { out := by
        rcases hreply with rfl | rfl
        · rw [List.append_nil]
          exact hsender
        · exact hsender.concat htag (.inl rfl)
      into := by
        refine hinto'.tail (fun n _ _ hl => (hlists _).mpr (hl.imp_right fun h => h.2.symm))
          fun j hj => ?_
        have hfreej := hinto'.due_free j ((due_sublist (List.sublist_cons_self m rest)).subset hj)
        have hne := h.ne_of_due_rest hinto hkind hj
        exact ⟨fun hl => ((hlists j).mp hl).elim hfreej.1 fun hjm => hne hjm.symm,
          h.ne_of_due_reply hinto hkind hreply rfl hj⟩
      tags := htags
      opening := fun n hn hopens f hf hfid => by
        rw [List.mem_append, List.mem_singleton] at hf
        rcases hf with hf | rfl
        · exact h.opening n (hinto ▸ List.mem_cons_of_mem m hn) hopens f hf hfid
        · exact h.ne_of_due_rest hinto hkind (mem_due_of_opens hn hopens)
            (Option.some.inj hfid) }

/-- A connection of the peer is refused. -/
theorem Settled.refused (h : Settled T w) (hinto : w.into = m :: rest) (hkind : m.kind = .opens)
    (hmine : ∀ e ∈ w.mine, e.id ≠ some m.id)
    (hreply : reply = [] ∨ reply = [⟨.closes, m.id, m.tag⟩])
    (hdata : ∀ n ∈ rest, n.kind = .data → n.id ≠ m.id) :
    Settled T { w with out := w.out ++ reply, into := rest } := by
  have htag : m.tag = T m.id := h.into.message_tag m (hinto ▸ List.mem_cons_self)
  have hinto' := hinto ▸ h.into
  exact
    { out := by
        rcases hreply with rfl | rfl
        · rw [List.append_nil]
          exact h.behind hinto
        · exact (h.behind hinto).concat htag
            (.inr ⟨rfl, fun ⟨f, hf, hfid, _⟩ => hmine f hf hfid⟩)
      into := by
        refine hinto'.tail (fun n hn hkindn hl =>
          hl.resolve_right fun hopens => hdata n hn hkindn hopens.2.symm) fun j hj => ?_
        have hfreej := hinto'.due_free j ((due_sublist (List.sublist_cons_self m rest)).subset hj)
        exact ⟨hfreej.1, h.ne_of_due_reply hinto hkind hreply rfl hj⟩
      tags := h.tags
      opening := fun n hn => h.opening n (hinto ▸ List.mem_cons_of_mem m hn) }

/-! ### What arrives -/

/-- **A message that arrives is about the connection that has its id**, also when that has just
been closed. -/
theorem Settled.tag_eq (h : Settled T w) (hinto : w.into = m :: rest) (he : e ∈ w.mine)
    (hid : e.id = some m.id) : e.tag = m.tag :=
  (h.tags e he m.id hid).trans (h.into.message_tag m (hinto ▸ List.mem_cons_self)).symm

/-- **Data that arrives is for an open connection.** -/
theorem Settled.lists_of_data (h : Settled T w) (hinto : w.into = m :: rest)
    (hkind : m.kind = .data) : Tracks w.mine m.id := by
  refine (h.into.listed [] m rest hinto hkind).resolve_right ?_
  rintro ⟨n, hn, -⟩
  exact absurd hn List.not_mem_nil

end Turns

end OsTasks.ReusedIds
