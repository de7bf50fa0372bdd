import Mathlib.Data.List.Basic
import Mathlib.Tactic.SplitIfs

/-!
# The list of lines

`line_list.c` keeps the offsets and the lengths of the lines of a file in a singly linked list with
a pointer to its last node. The memory that `malloc` gives to the nodes is a list of nodes, and the
address of a node is its place in it.

## Main definitions

* `Line`, `Node`, `LineList`, `initList`, `makeNode`, `listAdd`, `addLine`.
* `getNode`, `LineList.getLine`: the line with a number.
* `LineList.lines`: the lines that a walk along the list meets.

## Main results

* `lines_addLine`: a line that is added comes behind the others.
* `getLine_eq`: a line number selects an entry of the list of lines.
-/

namespace OsTasks.File

/-- `struct line`. -/
structure Line where
  offset : ℕ
  len : ℕ
  deriving DecidableEq

/-- Where a line is. -/
def Line.span (line : Line) : ℕ × ℕ := (line.offset, line.len)

/-- `struct node`; pointers are addresses. -/
structure Node where
  line : Line
  next : Option ℕ

/-- `struct list`, with the memory of its nodes. Both pointers are null, or none is. -/
structure LineList where
  nodes : List Node
  head : Option ℕ
  last : Option ℕ
  isSome_eq : head.isSome = last.isSome

def initList : LineList := ⟨[], none, none, rfl⟩

/-- The memory with one more node; no pointer of the list is changed. -/
def LineList.withNode (list : LineList) (node : Node) : LineList :=
  { list with nodes := list.nodes ++ [node] }

/-- `make_node`; `malloc` tells whether there is memory for it. -/
def makeNode (malloc : Bool) (list : LineList) (line : Line) (next : Option ℕ) :
    Option (ℕ × LineList) :=
  if malloc then some (list.nodes.length, list.withNode ⟨line, next⟩) else none

/-- `list_add` of the node at an address. -/
def listAdd (list : LineList) (node : ℕ) : LineList :=
  if h : list.head = none then { list with head := some node, last := some node, isSome_eq := rfl }
  else
    let last := list.last.get (by rw [← list.isSome_eq]; exact Option.isSome_iff_ne_none.mpr h)
    { list with
      nodes := list.nodes.modify last fun n => { n with next := some node }
      last := some node
      isSome_eq := Option.isSome_iff_ne_none.mpr h }

/-- `add_line`; the source returns `0` when there is no memory. -/
def addLine (malloc : Bool) (list : LineList) (line : Line) : Option LineList :=
  (makeNode malloc list line none).map fun r => listAdd r.2 r.1

/-- `get_node`: the node that is `n` nodes behind another one. -/
def getNode (nodes : List Node) : ℕ → Option ℕ → Option ℕ
  | 0, head => head
  | _ + 1, none => none
  | n + 1, some a => getNode nodes n (nodes[a]?.bind Node.next)

/-- The line with a number, counted from `0`. -/
def LineList.getLine (list : LineList) (n : ℕ) : Option Line :=
  (getNode list.nodes n list.head).bind fun a => list.nodes[a]?.map Node.line

/-- The lines from a node on, as the loop of `print_lines` meets them, up to a number of nodes. -/
def linesFrom (nodes : List Node) : ℕ → Option ℕ → List Line
  | 0, _ => []
  | _ + 1, none => []
  | fuel + 1, some a =>
    match nodes[a]? with
    | none => []
    | some node => node.line :: linesFrom nodes fuel node.next

/-- The lines of a list, in order. -/
def LineList.lines (list : LineList) : List Line := linesFrom list.nodes list.nodes.length list.head

/-! ### Linked lists -/

/-- The pointer to the place `i` among `n` nodes, null behind the last one. -/
def pointer (n i : ℕ) : Option ℕ := if i < n then some i else none

/-- Every node points to the next one, and the two pointers of the list to the first and the last
node. -/
structure LineList.Linked (list : LineList) : Prop where
  head : list.head = pointer list.nodes.length 0
  last : list.last = if list.nodes = [] then none else some (list.nodes.length - 1)
  next : ∀ i node, list.nodes[i]? = some node → node.next = pointer list.nodes.length (i + 1)

theorem linked_initList : initList.Linked := ⟨rfl, rfl, fun i node h => by simp [initList] at h⟩

variable {list : LineList}

theorem linesFrom_eq (h : list.Linked) (i fuel : ℕ) (hfuel : list.nodes.length - i ≤ fuel) :
    linesFrom list.nodes fuel (pointer list.nodes.length i) =
      (list.nodes.drop i).map Node.line := by
  induction fuel generalizing i with
  | zero => rw [List.drop_of_length_le (by omega)]; rfl
  | succ fuel ih =>
    by_cases hi : i < list.nodes.length
    · rw [pointer, if_pos hi, linesFrom, List.getElem?_eq_getElem hi]
      dsimp only
      rw [h.next i _ (List.getElem?_eq_getElem hi), ih (i + 1) (by omega),
        List.drop_eq_getElem_cons hi, List.map_cons]
    · rw [pointer, if_neg hi, linesFrom, List.drop_of_length_le (by omega)]
      rfl

/-- The walk along a linked list meets all nodes. -/
theorem LineList.Linked.lines_eq (h : list.Linked) : list.lines = list.nodes.map Node.line := by
  rw [LineList.lines, h.head, linesFrom_eq h 0 _ (Nat.sub_le _ _), List.drop_zero]

theorem getNode_eq (h : list.Linked) (n i : ℕ) :
    getNode list.nodes n (pointer list.nodes.length i) = pointer list.nodes.length (i + n) := by
  induction n generalizing i with
  | zero => rfl
  | succ n ih =>
    by_cases hi : i < list.nodes.length
    · rw [pointer, if_pos hi, getNode, List.getElem?_eq_getElem hi, Option.bind_some,
        h.next i _ (List.getElem?_eq_getElem hi), ih, Nat.add_right_comm]
      rfl
    · have hbehind : ¬ i + (n + 1) < list.nodes.length := by omega
      rw [pointer, if_neg hi, getNode, pointer, if_neg hbehind]

/-- **A line number selects an entry** of the list of lines. -/
theorem getLine_eq (h : list.Linked) (n : ℕ) : list.getLine n = list.lines[n]? := by
  rw [LineList.getLine, h.head, getNode_eq h, h.lines_eq, Nat.zero_add, List.getElem?_map, pointer]
  split_ifs with hn
  · rfl
  · rw [Option.bind_none, List.getElem?_eq_none (Nat.not_lt.mp hn)]
    rfl

/-- The first node. -/
theorem listAdd_of_empty (list : LineList) (h : list.head = none) (node : ℕ) :
    (listAdd list node).nodes = list.nodes ∧ (listAdd list node).head = some node ∧
      (listAdd list node).last = some node := by
  rw [listAdd, dif_pos h]
  exact ⟨rfl, rfl, rfl⟩

/-- A node behind the last one. -/
theorem listAdd_of_last (list : LineList) {a : ℕ} (h : list.last = some a) (node : ℕ) :
    (listAdd list node).nodes = list.nodes.modify a (fun n => { n with next := some node }) ∧
      (listAdd list node).head = list.head ∧ (listAdd list node).last = some node := by
  have hhead : list.head ≠ none := by
    rw [← Option.isSome_iff_ne_none, list.isSome_eq, h]
    rfl
  rw [listAdd, dif_neg hhead]
  simp [h]

/-- Setting a pointer changes no line. -/
theorem map_line_modify (nodes : List Node) (a : ℕ) (next : Option ℕ) :
    (nodes.modify a fun n => { n with next := next }).map Node.line = nodes.map Node.line := by
  refine List.ext_getElem? fun i => ?_
  rw [List.getElem?_map, List.getElem?_map, List.getElem?_modify, Option.map_eq_map, Option.map_map]
  refine congrArg (fun f => Option.map f nodes[i]?) (funext fun n => ?_)
  rw [Function.comp]
  split_ifs <;> rfl

/-- The next pointers after a node has been put behind the last one. -/
theorem next_modify_concat {nodes : List Node}
    (h : ∀ i node, nodes[i]? = some node → node.next = pointer nodes.length (i + 1)) (line : Line)
    {i : ℕ} {node : Node}
    (hnode : ((nodes ++ [(⟨line, none⟩ : Node)]).modify (nodes.length - 1)
      fun n => { n with next := some nodes.length })[i]? = some node) (hne : nodes ≠ []) :
    node.next = pointer (nodes.length + 1) (i + 1) := by
  have hpos := List.length_pos_of_ne_nil hne
  rw [List.getElem?_modify] at hnode
  rw [Option.map_eq_map] at hnode
  obtain ⟨old, hold, rfl⟩ := Option.map_eq_some_iff.mp hnode
  by_cases hi : i < nodes.length
  · rw [List.getElem?_append_left hi] at hold
    have hnext := h i old hold
    by_cases hlast : nodes.length - 1 = i
    · rw [if_pos hlast, pointer, if_pos (by omega)]
      exact congrArg some (by omega)
    · rw [if_neg hlast]
      rw [pointer, if_pos (by omega)] at hnext
      exact hnext.trans (by rw [pointer, if_pos (by omega)])
  · -- the new node
    rw [List.getElem?_append_right (Nat.not_lt.mp hi)] at hold
    obtain ⟨hzero, hnew⟩ := List.getElem?_eq_some_iff.mp hold
    simp only [List.length_singleton] at hzero
    rw [List.getElem_singleton] at hnew
    rw [if_neg (by omega), pointer, if_neg (by omega)]
    exact (congrArg Node.next hnew).symm

/-- The node behind the others is linked in. -/
theorem linked_listAdd (h : list.Linked) (line : Line) :
    (listAdd (list.withNode ⟨line, none⟩) list.nodes.length).Linked ∧
      (listAdd (list.withNode ⟨line, none⟩) list.nodes.length).nodes.map Node.line =
        list.nodes.map Node.line ++ [line] := by
  by_cases hempty : list.nodes = []
  · have hnone : list.head = none := by rw [h.head, hempty]; rfl
    obtain ⟨hnodes, hhead, hlast⟩ :=
      listAdd_of_empty (list.withNode ⟨line, none⟩) hnone list.nodes.length
    have hone : (list.withNode ⟨line, none⟩).nodes = [⟨line, none⟩] := by
      rw [LineList.withNode, hempty, List.nil_append]
    have hzero : list.nodes.length = 0 := by rw [hempty, List.length_nil]
    rw [hone] at hnodes
    refine ⟨⟨?_, ?_, fun i node hnode => ?_⟩, ?_⟩
    · rw [hhead, hnodes, hzero]
      rfl
    · rw [hlast, hnodes, hzero]
      rfl
    · rw [hnodes] at hnode ⊢
      obtain ⟨hi, rfl⟩ := List.getElem?_eq_some_iff.mp hnode
      obtain rfl : i = 0 := by simpa using hi
      rfl
    · rw [hnodes, hempty]
      rfl
  · have hpos := List.length_pos_of_ne_nil hempty
    obtain ⟨hnodes, hhead, hlast⟩ := listAdd_of_last (list.withNode ⟨line, none⟩)
      (h.last.trans (if_neg hempty)) list.nodes.length
    have hlen : (listAdd (list.withNode ⟨line, none⟩) list.nodes.length).nodes.length =
        list.nodes.length + 1 := by
      rw [hnodes, List.length_modify, LineList.withNode, List.length_append, List.length_singleton]
    refine ⟨⟨?_, ?_, fun i node hnode => ?_⟩, ?_⟩
    · rw [hhead, hlen]
      exact h.head.trans (by rw [pointer, pointer, if_pos hpos, if_pos (by omega)])
    · rw [hlast, hlen, if_neg fun hnil => by rw [hnil] at hlen; simp at hlen]
      rfl
    · rw [hlen]
      rw [hnodes] at hnode
      exact next_modify_concat h.next line hnode hempty
    · rw [hnodes, map_line_modify, LineList.withNode, List.map_append]
      rfl

/-- **A line that is added** comes behind the others, and the list stays linked. -/
theorem lines_addLine (h : list.Linked) (line : Line) :
    ∃ list', addLine true list line = some list' ∧ list'.Linked ∧
      list'.lines = list.lines ++ [line] := by
  obtain ⟨hlinked, hlines⟩ := linked_listAdd h line
  refine ⟨_, rfl, hlinked, ?_⟩
  rw [h.lines_eq, ← hlines]
  exact hlinked.lines_eq

end OsTasks.File
