import OsTasks.Library.ReusedIds
import Mathlib.Logic.Relation

/-!
# Turns of parties that use ids again

What a party may do in its turn is a relation between worlds. It keeps the invariant of ids that are
used again. If moreover no message that opens or closes a connection is lost, a connection that has
been announced is listed by both parties, or a message that opens or closes it is on its way. So
when nothing is on its way the parties list the same connections.

## Main definitions

* `Move`: what a party may do, when it may lose messages of certain kinds.
* `Turn`: a whole turn.
* `Matched`: every announced connection has a counterpart.

## Main results

* `Move.settled`, `Turn.safe`: a turn keeps the invariant.
* `Move.matched`, `Turn.matched`: a turn that loses no message that opens or closes keeps the
  counterparts.
* `Safe.counterpart`: the counterpart of a connection has its tag.
-/

namespace OsTasks.ReusedIds

open scoped List

/-! ### The relation -/

/-- What a party may do in its turn: `L` are the kinds of the messages that it may lose. -/
inductive Move (L : Kind → Prop) : World → World → Prop
  | name {w : World} {l₁ l₂ : List Entry} {e : Entry} {i : ℕ} (hmine : w.mine = l₁ ++ e :: l₂)
      (hid : e.id = none) (hunused : w.Unused i) :
      Move L w { w with mine := l₁ ++ { e with id := some i } :: l₂ }
  | announce {w : World} {l₁ l₂ : List Entry} {e : Entry} {i : ℕ}
      (hmine : w.mine = l₁ ++ e :: l₂) (hid : e.id = some i) (hopen : e.closed = false)
      (hnew : e.unannounced = true) :
      Move L w { w with
        mine := l₁ ++ { e with unannounced := false } :: l₂
        out := w.out ++ [⟨.opens, i, e.tag⟩] }
  | close {w : World} {l₁ l₂ : List Entry} {e : Entry} {i : ℕ} (hmine : w.mine = l₁ ++ e :: l₂)
      (hid : e.id = some i) (hopen : e.closed = false)
      (hdata : ∀ m ∈ w.into, m.kind = .data → m.id ≠ i) :
      Move L w { w with
        mine := l₁ ++ { e with closed := true } :: l₂
        out := w.out ++ [⟨.closes, i, e.tag⟩] }
  | tell {w : World} {e : Entry} {i : ℕ} (he : e ∈ w.mine) (hid : e.id = some i)
      (hopen : e.closed = false) : Move L w { w with out := w.out ++ [⟨.other, i, e.tag⟩] }
  | say {w : World} {e : Entry} {i : ℕ} {out₁ out₂ : List Message} (he : e ∈ w.mine)
      (hid : e.id = some i) (hopen : e.closed = false) (hout : w.out = out₁ ++ out₂)
      (hpeer : Tracks w.theirs i ∨ ∃ n ∈ out₁, n.kind = .opens ∧ n.id = i) :
      Move L w { w with out := out₁ ++ ⟨.data, i, e.tag⟩ :: out₂ }
  | lose {w : World} {m : Message} {out₁ out₂ : List Message} (hout : w.out = out₁ ++ m :: out₂)
      (hlost : L m.kind) (hdata : ∀ n ∈ out₂, n.kind ≠ .data) :
      Move L w { w with out := out₁ ++ out₂ }
  | take {w : World} {m : Message} {rest : List Message} (hinto : w.into = m :: rest)
      (hopens : m.kind ≠ .opens)
      (hcloses : m.kind = .closes → ∀ e ∈ w.mine, e.id ≠ some m.id) :
      Move L w { w with into := rest }
  | closed {w : World} {l₁ l₂ : List Entry} {e : Entry} {m : Message} {rest : List Message}
      (hinto : w.into = m :: rest) (hkind : m.kind = .closes) (hmine : w.mine = l₁ ++ e :: l₂)
      (hid : e.id = some m.id) :
      Move L w { w with mine := l₁ ++ { e with closed := true } :: l₂, into := rest }
  | opened {w : World} {m : Message} {rest reply : List Message} (hinto : w.into = m :: rest)
      (hkind : m.kind = .opens) (hmine : ∀ e ∈ w.mine, e.id ≠ some m.id)
      (hreply : reply = [] ∧ L .other ∨ reply = [⟨.other, m.id, m.tag⟩]) :
      Move L w { w with
        mine := w.mine ++ [⟨some m.id, m.tag, false, false⟩]
        out := w.out ++ reply
        into := rest }
  | refused {w : World} {m : Message} {rest reply : List Message} (hinto : w.into = m :: rest)
      (hkind : m.kind = .opens) (hmine : ∀ e ∈ w.mine, e.id ≠ some m.id)
      (hreply : reply = [] ∧ L .closes ∨ reply = [⟨.closes, m.id, m.tag⟩])
      (hdata : ∀ n ∈ rest, n.kind = .data → n.id ≠ m.id) :
      Move L w { w with out := w.out ++ reply, into := rest }

/-- Any number of moves. -/
def Moves (L : Kind → Prop) : World → World → Prop := Relation.ReflTransGen (Move L)

/-- The turn of a party: it forgets the closed connections, lists new ones that it has yet to name
and to announce, and makes any number of moves. -/
def Turn (L : Kind → Prop) (w w' : World) : Prop :=
  ∃ w₁, Sweep w w₁ ∧ (∀ e ∈ w₁.mine, e.id = none → e ∈ w.mine ∨ e.unannounced = true) ∧
    Moves L w₁ w'

variable {L : Kind → Prop} {T : ℕ → ℕ} {w w' : World}

/-! ### The invariant -/

/-- **A move** keeps the invariant. -/
theorem Move.settled (h : Settled T w) (hmove : Move L w w') : ∃ T', Settled T' w' := by
  cases hmove with
  | name hmine hid hunused => exact ⟨_, h.name hmine hid hunused⟩
  | announce hmine hid hopen hnew => exact ⟨T, h.announce hmine hid hopen hnew⟩
  | close hmine hid hopen hdata => exact ⟨T, h.close hmine hid hopen hdata⟩
  | tell he hid hopen => exact ⟨T, h.tell he hid hopen⟩
  | say he hid hopen hout hpeer => exact ⟨T, h.say he hid hopen hout hpeer⟩
  | lose hout _ hdata => exact ⟨T, h.lose hout hdata⟩
  | take hinto hopens _ => exact ⟨T, h.take hinto hopens⟩
  | closed hinto hkind hmine hid => exact ⟨T, h.closed hinto hkind hmine hid⟩
  | opened hinto hkind hmine hreply =>
    exact ⟨T, h.opened hinto hkind hmine (hreply.imp And.left id)⟩
  | refused hinto hkind hmine hreply hdata =>
    exact ⟨T, h.refused hinto hkind hmine (hreply.imp And.left id) hdata⟩

theorem Moves.settled (h : Settled T w) (hmoves : Moves L w w') : ∃ T', Settled T' w' := by
  induction hmoves with
  | refl => exact ⟨T, h⟩
  | tail _ hlast ih =>
    obtain ⟨T₁, h₁⟩ := ih
    exact hlast.settled h₁

/-- **A turn** keeps the invariant. -/
theorem Turn.safe (h : Safe T w) (hturn : Turn L w w') : ∃ T', Safe T' w' := by
  obtain ⟨w₁, hsweep, -, hmoves⟩ := hturn
  obtain ⟨T', hsettled⟩ := hmoves.settled (h.sweep hsweep)
  exact ⟨T', hsettled.toSafe⟩

/-! ### Counterparts -/

/-- What a party knows of the connection with an id, or a message on its way that opens it there or
closes it here. -/
def Reached (out : List Message) (fs : List Entry) (into : List Message) (i : ℕ) : Prop :=
  Tracks fs i ∨ (∃ m ∈ out, m.kind = .opens ∧ m.id = i) ∨ ∃ m ∈ into, m.kind = .closes ∧ m.id = i

/-- A message that closes the connection is behind the message. -/
def ClosedBehind (out : List Message) (m : Message) : Prop :=
  ∃ n, n.kind = .closes ∧ n.id = m.id ∧ [m, n] <+ out

/-- What holds of a party that lists `es` and its messages `out` to one that lists `fs`, when `into`
are the messages the other way: what it has announced has reached the peer, and what it is about to
open it lists, or closes behind that. -/
structure Linked (es : List Entry) (out : List Message) (fs : List Entry) (into : List Message) :
    Prop where
  unnamed : ∀ e ∈ es, e.id = none → e.unannounced = true
  reached : ∀ e ∈ es, e.closed = false → e.unannounced = false → ∀ i, e.id = some i →
    Reached out fs into i
  opening : ∀ m ∈ out, m.kind = .opens → Tracks es m.id ∨ ClosedBehind out m

/-- Every connection that has been announced has a counterpart. -/
structure Matched (w : World) : Prop where
  out : Linked w.mine w.out w.theirs w.into
  into : Linked w.theirs w.into w.mine w.out

theorem Matched.swap (h : Matched w) : Matched w.swap := ⟨h.into, h.out⟩

/-- Both parties list the same connection, and nothing is on its way. -/
theorem matched_single (e : Entry) (hid : e.id ≠ none) (hopen : e.closed = false) :
    Matched ⟨[e], [e], [], []⟩ := by
  have hlinked : Linked [e] [] [e] [] :=
    { unnamed := fun f hf hnone => absurd (List.mem_singleton.mp hf ▸ hnone) hid
      reached := fun f hf _ _ i hi =>
        .inl ⟨e, List.mem_singleton_self e, List.mem_singleton.mp hf ▸ hi, hopen⟩
      opening := fun _ hm => absurd hm List.not_mem_nil }
  exact ⟨hlinked, hlinked⟩

section Direction

variable {es es' fs fs' : List Entry} {out out' into into' out₁ out₂ : List Message} {m : Message}
  {i : ℕ}

theorem Reached.mono (h : Reached out fs into i) (hfs : Tracks fs i → Tracks fs' i)
    (hout : out ⊆ out') (hinto : into ⊆ into') : Reached out' fs' into' i :=
  h.imp hfs (.imp (fun ⟨n, hn, hopens⟩ => ⟨n, hout hn, hopens⟩)
    fun ⟨n, hn, hcloses⟩ => ⟨n, hinto hn, hcloses⟩)

theorem ClosedBehind.mono (h : ClosedBehind out m) (hout : out <+ out') : ClosedBehind out' m := by
  obtain ⟨n, hkind, hid, hsub⟩ := h
  exact ⟨n, hkind, hid, hsub.trans hout⟩

theorem closedBehind_concat {n : Message} (hm : m ∈ out) (hkind : n.kind = .closes)
    (hid : n.id = m.id) : ClosedBehind (out ++ [n]) m :=
  ⟨n, hkind, hid, (List.singleton_sublist.mpr hm).append (List.Sublist.refl [n])⟩

/-- A change at the receiver. -/
theorem Linked.receiver (h : Linked es out fs into)
    (hreached : ∀ i, Tracks es i → Reached out fs into i → Reached out fs' into' i) :
    Linked es out fs' into' where
  unnamed := h.unnamed
  reached e he hopen hann i hid :=
    hreached i ⟨e, he, hid, hopen⟩ (h.reached e he hopen hann i hid)
  opening := h.opening

/-- A change of the sender's list. -/
theorem Linked.sender (h : Linked es out fs into)
    (hunnamed : ∀ e ∈ es', e.id = none → e.unannounced = true)
    (hreached : ∀ e ∈ es', e.closed = false → e.unannounced = false → ∀ i, e.id = some i →
      (∃ f ∈ es, f.id = some i ∧ f.closed = false ∧ f.unannounced = false) ∨ Reached out fs into i)
    (hopening : ∀ m ∈ out, m.kind = .opens → Tracks es m.id →
      Tracks es' m.id ∨ ClosedBehind out m) : Linked es' out fs into where
  unnamed := hunnamed
  reached e he hopen hann i hid := by
    rcases hreached e he hopen hann i hid with ⟨f, hf, hfid, hfopen, hfann⟩ | hreached
    · exact h.reached f hf hfopen hfann i hfid
    · exact hreached
  opening m hm hkind := (h.opening m hm hkind).elim (hopening m hm hkind) .inr

/-- A message is added. -/
theorem Linked.insert (h : Linked es (out₁ ++ out₂) fs into)
    (hopens : m.kind = .opens → Tracks es m.id) : Linked es (out₁ ++ m :: out₂) fs into := by
  have hsub : (out₁ ++ out₂) <+ (out₁ ++ m :: out₂) :=
    (List.Sublist.refl _).append (List.sublist_cons_self m out₂)
  refine ⟨h.unnamed, fun e he hopen hann i hid =>
    (h.reached e he hopen hann i hid).mono id hsub.subset (List.Subset.refl _),
    fun n hn hkind => ?_⟩
  rw [List.mem_append, List.mem_cons, or_left_comm, ← List.mem_append] at hn
  rcases hn with rfl | hn
  · exact .inl (hopens hkind)
  · exact (h.opening n hn hkind).imp id fun hbehind => hbehind.mono hsub

theorem Linked.concat (h : Linked es out fs into) (hopens : m.kind = .opens → Tracks es m.id) :
    Linked es (out ++ [m]) fs into :=
  Linked.insert (by rwa [List.append_nil]) hopens

/-- A message is lost that neither opens nor closes. -/
theorem Linked.lose (h : Linked es (out₁ ++ m :: out₂) fs into) (hopens : m.kind ≠ .opens)
    (hcloses : m.kind ≠ .closes) : Linked es (out₁ ++ out₂) fs into := by
  have hmem {n : Message} (hn : n ∈ out₁ ++ m :: out₂) (hkind : n.kind ≠ m.kind) :
      n ∈ out₁ ++ out₂ := by
    rw [List.mem_append, List.mem_cons, or_left_comm, ← List.mem_append] at hn
    exact hn.resolve_left fun heq => hkind (heq ▸ rfl)
  refine ⟨h.unnamed, fun e he hopen hann i hid => ?_, fun n hn hkind => ?_⟩
  · refine (h.reached e he hopen hann i hid).imp id (.imp ?_ id)
    rintro ⟨n, hn, hkind, hnid⟩
    exact ⟨n, hmem hn fun heq => hopens (heq ▸ hkind), hkind, hnid⟩
  · have hsub : (out₁ ++ out₂) <+ (out₁ ++ m :: out₂) :=
      (List.Sublist.refl _).append (List.sublist_cons_self m out₂)
    refine (h.opening n (hsub.subset hn) hkind).imp id ?_
    rintro ⟨o, hokind, hoid, ho⟩
    -- neither of the two messages is the one that is lost
    refine ⟨o, hokind, hoid, ?_⟩
    have hfilter := ho.filter fun x => decide (x.kind ≠ m.kind)
    have hboth : [n, o].filter (fun x => decide (x.kind ≠ m.kind)) = [n, o] := by
      simp [hkind, hokind, hopens.symm, hcloses.symm]
    rw [hboth, List.filter_append, List.filter_cons_of_neg (by simp), ← List.filter_append]
      at hfilter
    exact hfilter.trans List.filter_sublist

/-- The receiver has taken the oldest message. -/
theorem Linked.tail (h : Linked es (m :: out) fs into)
    (hopens : m.kind = .opens → ∀ n ∈ out, n.kind = .opens → n.id ≠ m.id)
    (hreached : ∀ i, Tracks es i → Reached (m :: out) fs into i → Reached out fs' into' i) :
    Linked es out fs' into' where
  unnamed := h.unnamed
  reached e he hopen hann i hid :=
    hreached i ⟨e, he, hid, hopen⟩ (h.reached e he hopen hann i hid)
  opening n hn hkind := by
    refine (h.opening n (List.mem_cons_of_mem m hn) hkind).imp id ?_
    rintro ⟨o, hokind, hoid, ho⟩
    refine ⟨o, hokind, hoid, ?_⟩
    rcases List.sublist_cons_iff.mp ho with ho | ⟨r, hr, -⟩
    · exact ho
    · obtain ⟨rfl, -⟩ := List.cons.inj hr
      exact absurd rfl (hopens hkind n hn hkind)

end Direction

/-! ### Turns keep the counterparts -/

section Turns

variable {l₁ l₂ : List Entry} {e : Entry} {i : ℕ} {m : Message} {rest reply : List Message}

theorem Matched.sweep (h : Matched w) (hsweep : Sweep w w')
    (hnew : ∀ e ∈ w'.mine, e.id = none → e ∈ w.mine ∨ e.unannounced = true) : Matched w' := by
  obtain ⟨mine', theirs', out', into'⟩ := w'
  obtain ⟨⟨es, new, hmine, hsub, hes, hkept, hnone⟩, rfl, rfl, rfl⟩ := hsweep
  dsimp only at hmine hnew
  subst hmine
  have htracks (i : ℕ) : Tracks w.mine i → Tracks (es ++ new) i := fun ⟨e, he, hid, hopen⟩ =>
    ⟨e, List.mem_append_left _ (hkept e he hopen), hid, hopen⟩
  refine ⟨h.out.sender (fun e he hid => ?_) (fun e he hopen hann i hid => .inl ?_)
    fun m _ _ hl => .inl (htracks m.id hl),
    h.into.receiver fun i _ hreached => hreached.mono (htracks i) (List.Subset.refl _)
      (List.Subset.refl _)⟩
  · exact (hnew e he hid).elim (fun he => h.out.unnamed e he hid) id
  · rcases List.mem_append.mp he with he | he
    · exact ⟨e, hsub.subset he, hid, hopen, hann⟩
    · exact absurd ((hnone e he).symm.trans hid) (Option.some_ne_none i).symm

theorem Matched.name (h : Matched w) (hmine : w.mine = l₁ ++ e :: l₂) (hid : e.id = none) :
    Matched { w with mine := l₁ ++ { e with id := some i } :: l₂ } := by
  have hnew : e.unannounced = true :=
    h.out.unnamed e (hmine ▸ List.mem_append_right _ List.mem_cons_self) hid
  have htracks (j : ℕ) : Tracks w.mine j → Tracks (l₁ ++ { e with id := some i } :: l₂) j := by
    rw [hmine]
    exact fun hl => hl.change fun hj => absurd (hid.symm.trans hj) (Option.some_ne_none j).symm
  have hmem {f : Entry} (hf : f ∈ l₁ ++ { e with id := some i } :: l₂) :
      f = { e with id := some i } ∨ f ∈ w.mine := by
    rw [List.mem_append, List.mem_cons] at hf
    rw [hmine, List.mem_append, List.mem_cons]
    tauto
  refine ⟨h.out.sender (fun f hf hfid => ?_) (fun f hf hopen hann j hfid => .inl ?_)
    fun m _ _ hl => .inl (htracks m.id hl),
    h.into.receiver fun j _ hreached => hreached.mono (htracks j) (List.Subset.refl _)
      (List.Subset.refl _)⟩
  · rcases hmem hf with rfl | hf
    · exact hnew
    · exact h.out.unnamed f hf hfid
  · rcases hmem hf with rfl | hf
    · exact absurd (hann.symm.trans hnew) Bool.false_ne_true
    · exact ⟨f, hf, hfid, hopen, hann⟩

/-- What the peer has announced is still reached when the party says more. -/
theorem Matched.into_concat (h : Matched w) (m : Message) :
    Linked w.theirs w.into w.mine (w.out ++ [m]) :=
  h.into.receiver fun _ _ hreached => hreached.mono id (List.Subset.refl _)
    (List.subset_append_left _ _)

theorem Matched.announce (h : Matched w) (hmine : w.mine = l₁ ++ e :: l₂) (hid : e.id = some i)
    (hopen : e.closed = false) :
    Matched { w with
      mine := l₁ ++ { e with unannounced := false } :: l₂
      out := w.out ++ [⟨.opens, i, e.tag⟩] } := by
  have he : e ∈ w.mine := hmine ▸ List.mem_append_right _ List.mem_cons_self
  have hlists (j : ℕ) : Tracks (l₁ ++ { e with unannounced := false } :: l₂) j ↔
      Tracks (l₁ ++ e :: l₂) j := lists_change rfl rfl
  have htracks (j : ℕ) (hl : Tracks w.mine j) :
      Tracks (l₁ ++ { e with unannounced := false } :: l₂) j := (hlists j).mpr (hmine ▸ hl)
  have hout := h.out.concat (m := ⟨.opens, i, e.tag⟩) fun _ => ⟨e, he, hid, hopen⟩
  have hmem {f : Entry} (hf : f ∈ l₁ ++ { e with unannounced := false } :: l₂) :
      f = { e with unannounced := false } ∨ f ∈ w.mine := by
    rw [List.mem_append, List.mem_cons] at hf
    rw [hmine, List.mem_append, List.mem_cons]
    tauto
  refine ⟨hout.sender (fun f hf hfid => ?_) (fun f hf hfopen hann j hfid => ?_)
    fun m _ _ hl => .inl (htracks m.id hl),
    (h.into_concat _).receiver fun j _ hreached => hreached.mono (htracks j) (List.Subset.refl _)
      (List.Subset.refl _)⟩
  · rcases hmem hf with rfl | hf
    · exact absurd (hid.symm.trans hfid) (Option.some_ne_none i)
    · exact h.out.unnamed f hf hfid
  · rcases hmem hf with rfl | hf
    · obtain rfl := Option.some.inj (hid.symm.trans hfid)
      exact .inr (.inr (.inl ⟨_, List.mem_append_right _ (List.mem_singleton_self _), rfl, rfl⟩))
    · exact .inl ⟨f, hf, hfid, hfopen, hann⟩

/-- Closing a connection leaves the others announced. -/
theorem mem_of_mem_close {f : Entry} (hf : f ∈ l₁ ++ { e with closed := true } :: l₂)
    (hopen : f.closed = false) : f ∈ l₁ ++ e :: l₂ := by
  rw [List.mem_append, List.mem_cons] at hf ⊢
  rcases hf with hf | rfl | hf
  · exact .inl hf
  · exact absurd hopen Bool.noConfusion
  · exact .inr (.inr hf)

theorem unnamed_close (h : ∀ f ∈ l₁ ++ e :: l₂, f.id = none → f.unannounced = true) :
    ∀ f ∈ l₁ ++ { e with closed := true } :: l₂, f.id = none → f.unannounced = true := by
  intro f hf hid
  rw [List.mem_append, List.mem_cons] at hf
  rcases hf with hf | rfl | hf
  · exact h f (List.mem_append_left _ hf) hid
  · exact h e (List.mem_append_right _ List.mem_cons_self) hid
  · exact h f (List.mem_append_right _ (List.mem_cons_of_mem e hf)) hid

theorem Matched.close (h : Matched w) (hmine : w.mine = l₁ ++ e :: l₂) (hid : e.id = some i) :
    Matched { w with
      mine := l₁ ++ { e with closed := true } :: l₂
      out := w.out ++ [⟨.closes, i, e.tag⟩] } := by
  have hout := h.out.concat (m := ⟨.closes, i, e.tag⟩) fun hkind => nomatch hkind
  have hinto := h.into_concat ⟨.closes, i, e.tag⟩
  rw [hmine] at hout hinto
  refine ⟨hout.sender (unnamed_close hout.unnamed)
    (fun f hf hfopen hann j hfid => .inl ⟨f, mem_of_mem_close hf hfopen, hfid, hfopen, hann⟩)
    fun m hm hkind hl => ?_, hinto.receiver fun j _ hreached => ?_⟩
  · by_cases hmi : m.id = i
    · rw [List.mem_append, List.mem_singleton] at hm
      refine .inr (closedBehind_concat (hm.resolve_right ?_) rfl hmi.symm)
      rintro rfl
      exact nomatch hkind
    · exact .inl (hl.close hid hmi)
  · by_cases hji : j = i
    · exact .inr (.inr ⟨_, List.mem_append_right _ (List.mem_singleton_self _), rfl, hji.symm⟩)
    · exact hreached.mono (fun hl => hl.close hid hji) (List.Subset.refl _) (List.Subset.refl _)

/-- Something is said that neither opens nor closes. -/
theorem Matched.say {out₁ out₂ : List Message} (h : Matched w) (hout : w.out = out₁ ++ out₂)
    (hopens : m.kind ≠ .opens) : Matched { w with out := out₁ ++ m :: out₂ } := by
  refine ⟨Linked.insert (hout ▸ h.out) fun hkind => absurd hkind hopens,
    h.into.receiver fun _ _ hreached => hreached.mono id (List.Subset.refl _) fun n hn => ?_⟩
  rw [hout, List.mem_append] at hn
  exact List.mem_append.mpr (hn.imp_right (List.mem_cons_of_mem m))

theorem Matched.lose {out₁ out₂ : List Message} (h : Matched w) (hout : w.out = out₁ ++ m :: out₂)
    (hkind : m.kind = .other) : Matched { w with out := out₁ ++ out₂ } := by
  have hne : m.kind ≠ .opens ∧ m.kind ≠ .closes := by
    rw [hkind]
    decide
  refine ⟨Linked.lose (hout ▸ h.out) hne.1 hne.2, h.into.receiver fun _ _ hreached => ?_⟩
  refine hreached.imp id (.imp id fun ⟨n, hn, hcloses, hnid⟩ => ⟨n, ?_, hcloses, hnid⟩)
  rw [hout, List.mem_append, List.mem_cons, or_left_comm, ← List.mem_append] at hn
  exact hn.resolve_left fun heq => hne.2 (heq ▸ hcloses)

/-- What is reached by other messages than the oldest one from the peer. -/
theorem Reached.behind {out fs : List _} (h : Reached out fs (m :: rest) i)
    (hcloses : m.kind = .closes → m.id ≠ i) : Reached out fs rest i := by
  refine h.imp id (.imp id ?_)
  rintro ⟨n, hn, hkind, hnid⟩
  refine ⟨n, (List.mem_cons.mp hn).resolve_left ?_, hkind, hnid⟩
  rintro rfl
  exact hcloses hkind hnid

theorem Reached.ahead {fs into : List _} (h : Reached (m :: rest) fs into i)
    (hopens : m.kind = .opens → m.id ≠ i) : Reached rest fs into i := by
  refine h.imp id (.imp ?_ id)
  rintro ⟨n, hn, hkind, hnid⟩
  refine ⟨n, (List.mem_cons.mp hn).resolve_left ?_, hkind, hnid⟩
  rintro rfl
  exact hopens hkind hnid

theorem Matched.take (h : Matched w) (hinto : w.into = m :: rest) (hopens : m.kind ≠ .opens)
    (hcloses : m.kind = .closes → ∀ e ∈ w.mine, e.id ≠ some m.id) :
    Matched { w with into := rest } := by
  refine ⟨h.out.receiver fun i hl hreached => ?_,
    Linked.tail (hinto ▸ h.into) (fun hkind => absurd hkind hopens) fun i _ hreached =>
      hreached.ahead fun hkind => absurd hkind hopens⟩
  obtain ⟨e, he, hid, -⟩ := hl
  exact (hinto ▸ hreached).behind fun hkind hmi => hcloses hkind e he (hmi ▸ hid)

/-- **The peer has closed a connection**, which it does not list any more. -/
theorem Matched.closed (h : Matched w) (hsettled : Settled T w) (hinto : w.into = m :: rest)
    (hkind : m.kind = .closes) (hmine : w.mine = l₁ ++ e :: l₂) (hid : e.id = some m.id) :
    Matched { w with mine := l₁ ++ { e with closed := true } :: l₂, into := rest } := by
  have hm : m ∈ w.into := hinto ▸ List.mem_cons_self
  have hnot : ¬ Tracks w.theirs m.id := hsettled.into.closing m hm hkind
  have hnot' := not_lists_close (hmine ▸ hsettled.out.distinct) hid
  have hout := hmine ▸ h.out
  have hswept : Linked (l₁ ++ { e with closed := true } :: l₂) w.out w.theirs w.into := by
    refine hout.sender (unnamed_close hout.unnamed)
      (fun f hf hfopen hann j hfid => .inl ⟨f, mem_of_mem_close hf hfopen, hfid, hfopen, hann⟩)
      fun n hn hopens hl => ?_
    -- what is about to be opened has not been closed by the peer
    have hfree := (hsettled.out.due_free n.id (mem_due_of_opens hn hopens)).2 m hm
    exact .inl (hl.close hid hfree.symm)
  refine ⟨hswept.receiver fun i hl hreached => ?_, Linked.tail (hinto ▸ h.into)
    (fun hopens => absurd (hkind.symm.trans hopens) (by decide)) fun i hl hreached => ?_⟩
  · exact (hinto ▸ hreached).behind fun _ hmi => hnot' (hmi ▸ hl)
  · have hne : i ≠ m.id := fun him => hnot (him ▸ hl)
    rw [hmine] at hreached
    refine (hreached.ahead fun hopens => absurd (hkind.symm.trans hopens) (by decide)).mono
      (fun hl => hl.close hid hne) (List.Subset.refl _) (List.Subset.refl _)

/-- Messages behind one that opens are about other connections. -/
theorem Settled.opens_ne (h : Settled T w) (hinto : w.into = m :: rest) (hkind : m.kind = .opens) :
    ∀ n ∈ rest, n.kind = .opens → n.id ≠ m.id :=
  fun _ hn hopens => (h.ne_of_due_rest hinto hkind (mem_due_of_opens hn hopens)).symm

/-- **A connection of the peer is opened.** The peer lists it, or closes it later. -/
theorem Matched.opened (h : Matched w) (hsettled : Settled T w) (hinto : w.into = m :: rest)
    (hkind : m.kind = .opens) (hreply : reply = [] ∨ reply = [⟨.other, m.id, m.tag⟩]) :
    Matched { w with
      mine := w.mine ++ [⟨some m.id, m.tag, false, false⟩]
      out := w.out ++ reply
      into := rest } := by
  have hm : m ∈ w.into := hinto ▸ List.mem_cons_self
  have htracks := fun j => lists_concat w.mine m.id j m.tag
  have hreached : Reached w.out w.theirs rest m.id := by
    rcases h.into.opening m hm hkind with hl | ⟨n, hcloses, hnid, hsub⟩
    · exact .inl hl
    · have hn := hsub.subset (List.mem_cons_of_mem m (List.mem_singleton_self n))
      rw [hinto] at hn
      refine .inr (.inr ⟨n, (List.mem_cons.mp hn).resolve_left ?_, hcloses, hnid⟩)
      rintro rfl
      exact absurd (hkind.symm.trans hcloses) (by decide)
  have hswept : Linked (w.mine ++ [⟨some m.id, m.tag, false, false⟩]) w.out w.theirs rest := by
    refine (h.out.receiver fun i _ hreached => (hinto ▸ hreached).behind fun hcloses =>
      absurd (hkind.symm.trans hcloses) (by decide)).sender (fun f hf hfid => ?_)
      (fun f hf hfopen hann j hfid => ?_) fun n _ _ hl => .inl ((htracks n.id).mpr (.inl hl))
    · rw [List.mem_append, List.mem_singleton] at hf
      rcases hf with hf | rfl
      · exact h.out.unnamed f hf hfid
      · exact absurd hfid (Option.some_ne_none _)
    · rw [List.mem_append, List.mem_singleton] at hf
      rcases hf with hf | rfl
      · exact .inl ⟨f, hf, hfid, hfopen, hann⟩
      · exact .inr (Option.some.inj hfid ▸ hreached)
  refine ⟨?_, Linked.tail (hinto ▸ h.into) (fun _ => hsettled.opens_ne hinto hkind)
    fun i _ hreached => ?_⟩
  · rcases hreply with rfl | rfl
    · rwa [List.append_nil]
    · exact hswept.concat fun hopens => nomatch hopens
  · by_cases hi : m.id = i
    · exact .inl ((htracks i).mpr (.inr hi.symm))
    · exact (hreached.ahead fun _ => hi).mono (fun hl => (htracks i).mpr (.inl hl))
        (List.Subset.refl _) (List.subset_append_left _ _)

/-- **A connection of the peer is refused.** -/
theorem Matched.refused (h : Matched w) (hsettled : Settled T w) (hinto : w.into = m :: rest)
    (hkind : m.kind = .opens) :
    Matched { w with out := w.out ++ [⟨.closes, m.id, m.tag⟩], into := rest } := by
  refine ⟨Linked.concat (m := ⟨.closes, m.id, m.tag⟩) ?_ (fun hopens => nomatch hopens),
    Linked.tail (hinto ▸ h.into) (fun _ => hsettled.opens_ne hinto hkind) fun i _ hreached => ?_⟩
  · exact h.out.receiver fun i _ hreached => (hinto ▸ hreached).behind fun hcloses =>
      absurd (hkind.symm.trans hcloses) (by decide)
  · by_cases hi : m.id = i
    · exact .inr (.inr ⟨_, List.mem_append_right _ (List.mem_singleton_self _), rfl, hi⟩)
    · exact (hreached.ahead fun _ => hi).mono id (List.Subset.refl _)
        (List.subset_append_left _ _)

/-- **A move** that loses no message that opens or closes keeps the counterparts. -/
theorem Move.matched (hL : ∀ k, L k → k = .other) (hsettled : Settled T w) (h : Matched w)
    (hmove : Move L w w') : Matched w' := by
  cases hmove with
  | name hmine hid _ => exact h.name hmine hid
  | announce hmine hid hopen _ => exact h.announce hmine hid hopen
  | close hmine hid _ _ => exact h.close hmine hid
  | tell he hid hopen =>
    exact h.say (List.append_nil _).symm fun hkind => nomatch hkind
  | say he hid hopen hout _ => exact h.say hout fun hkind => nomatch hkind
  | lose hout hlost _ => exact h.lose hout (hL _ hlost)
  | take hinto hopens hcloses => exact h.take hinto hopens hcloses
  | closed hinto hkind hmine hid => exact h.closed hsettled hinto hkind hmine hid
  | opened hinto hkind hmine hreply =>
    exact h.opened hsettled hinto hkind (hreply.imp And.left id)
  | refused hinto hkind _ hreply _ =>
    obtain rfl := hreply.resolve_left fun hlost => absurd (hL _ hlost.2) (by decide)
    exact h.refused hsettled hinto hkind

theorem Moves.matched (hL : ∀ k, L k → k = .other) (hsettled : Settled T w) (h : Matched w)
    (hmoves : Moves L w w') : Matched w' := by
  induction hmoves with
  | refl => exact h
  | tail hmoves hlast ih =>
    obtain ⟨T', hsettled'⟩ := Moves.settled hsettled hmoves
    exact hlast.matched hL hsettled' ih

/-- **A turn** that loses no message that opens or closes keeps the counterparts. -/
theorem Turn.matched (hL : ∀ k, L k → k = .other) (hsafe : Safe T w) (h : Matched w)
    (hturn : Turn L w w') : Matched w' := by
  obtain ⟨w₁, hsweep, hnew, hmoves⟩ := hturn
  exact hmoves.matched hL (hsafe.sweep hsweep) (h.sweep hsweep hnew)

end Turns

/-! ### What counterparts are -/

/-- **The counterpart of a connection** has its tag: the peer lists it and has nothing to announce
about it, or a message is on its way that opens it there or closes it here. -/
theorem Safe.counterpart {e : Entry} {i : ℕ} (hsafe : Safe T w) (h : Matched w) (he : e ∈ w.mine)
    (hopen : e.closed = false) (hann : e.unannounced = false) (hid : e.id = some i) :
    (∃ f ∈ w.theirs, f.id = some i ∧ f.tag = e.tag ∧ f.closed = false ∧ f.unannounced = false) ∨
      (∃ m ∈ w.out, m.kind = .opens ∧ m.id = i ∧ m.tag = e.tag) ∨
        ∃ m ∈ w.into, m.kind = .closes ∧ m.id = i ∧ m.tag = e.tag := by
  have htag : e.tag = T i := hsafe.out.entry_tag e he hopen i hid
  rcases h.out.reached e he hopen hann i hid with
    ⟨f, hf, hfid, hfopen⟩ | ⟨m, hm, hkind, rfl⟩ | ⟨m, hm, hkind, rfl⟩
  · refine .inl ⟨f, hf, hfid, (hsafe.into.entry_tag f hf hfopen i hfid).trans htag.symm, hfopen,
      Bool.eq_false_iff.mpr fun hnew => ?_⟩
    -- what the peer has yet to announce has another id
    have hdue : i ∈ due w.theirs w.into :=
      List.mem_append_right _ (List.mem_filterMap.mpr
        ⟨f, List.mem_filter.mpr ⟨hf, by rw [hnew, hfopen]; rfl⟩, hfid⟩)
    exact (hsafe.into.due_free i hdue).1 ⟨e, he, hid, hopen⟩
  · exact .inr (.inl ⟨m, hm, hkind, rfl, (hsafe.out.message_tag m hm).trans htag.symm⟩)
  · exact .inr (.inr ⟨m, hm, hkind, rfl, (hsafe.into.message_tag m hm).trans htag.symm⟩)

end OsTasks.ReusedIds
