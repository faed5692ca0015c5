import Enet.Library.RingFamily
import Enet.Model.Lists

/-!
# What the lists do to sequences

A heap holds any number of lists, each with its sentinel and the nodes behind
it, forward and backward the same. The functions of `list.c` act on those
sequences as insertion, deletion and splicing do. The lists they are not called
for keep their nodes and the links of these.

Nothing is asked of the node that is inserted but that it is in no list, and of
the position of a move but that it is none of the nodes moved: the node behind
them, and the sentinel, are positions like any other.
-/

set_option autoImplicit false

namespace Enet

open Library (Links)
open Library.Links (AreRings IsRing IsSegment)

universe u v

variable {α : Type u} [DecidableEq α] {ι : Type v} [DecidableEq ι]

omit [DecidableEq α] [DecidableEq ι] in
/-- What a function does to the lists of a heap: their nodes are then others, and those
that have the same nodes have the same links. -/
structure TurnsLists (links links' : Links α) (sentinels : ι → α) (lists lists' : ι → List α) :
    Prop where
  rings : AreRings links' sentinels lists'
  untouched : ∀ name, lists' name = lists name → ∀ node ∈ sentinels name :: lists name,
    links'.next node = links.next node ∧ links'.previous node = links.previous node

omit [DecidableEq α] [DecidableEq ι] in
theorem TurnsLists.of_rings {links links' : Links α} {sentinels : ι → α}
    {lists lists' : ι → List α} (before : AreRings links sentinels lists)
    (after : AreRings links' sentinels lists') :
    TurnsLists links links' sentinels lists lists' := by
  refine ⟨after, fun name same node member => ?_⟩
  have ring := after.ring name
  rw [same] at ring
  exact (before.ring name).links_eq ring node member

/-- A list that was cleared is empty. -/
theorem listClear_isRing (links : Links α) (sentinel : α) :
    IsRing (listClear links sentinel) sentinel [] :=
  .clear links sentinel

/-- The loop of `enet_list_size` counts the nodes that are left. -/
theorem listSizeFrom_eq {links : Links α} {sentinel : α} {nodes : List α} :
    ∀ {first : α} {fuel : Nat} (size : Nat), Library.Path links.next first nodes sentinel →
      sentinel ∉ nodes → nodes.length < fuel →
      listSizeFrom links sentinel fuel (links.next first) size = some (size + nodes.length) := by
  induction nodes with
  | nil =>
      intro first fuel size path _ enough
      cases fuel with
      | zero => exact absurd enough (Nat.not_lt_zero _)
      | succ fuel =>
          rw [show links.next first = sentinel from path, listSizeFrom, if_neg (by simp)]
          rfl
  | cons node nodes ih =>
      intro first fuel size path apart enough
      cases fuel with
      | zero => exact absurd enough (Nat.not_lt_zero _)
      | succ fuel =>
          have different : node ≠ sentinel := fun same => apart (same ▸ List.mem_cons_self)
          rw [path.1, listSizeFrom, if_pos different, ih (size + 1) path.2
            (fun member => apart (List.mem_cons_of_mem _ member)) (Nat.lt_of_succ_lt_succ enough),
            List.length_cons]
          congr 1
          omega

/-- **The size of a list** is the number of its nodes. -/
theorem listSize_eq {links : Links α} {sentinel : α} {nodes : List α}
    (ring : IsRing links sentinel nodes) {fuel : Nat} (enough : nodes.length < fuel) :
    listSize links sentinel fuel = some nodes.length := by
  have sized := listSizeFrom_eq 0 ring.forward (List.nodup_cons.mp ring.distinct).1 enough
  rw [Nat.zero_add] at sized
  exact sized

/-- **The list functions refine sequences.** In any heap with any number of lists that
share no node:

* an insertion puts a node that is in no list before a position of one of them;
* a removal deletes a node;
* a move takes the nodes from `first` to `last` out of a list and puts them before a
  position among what is left of that list, or of another one. -/
theorem lists_refine_sequences {links : Links α} {sentinels : ι → α} {lists : ι → List α}
    (rings : AreRings links sentinels lists) :
    (∀ name before after position node, lists name = before ++ after →
      after.head?.getD (sentinels name) = position →
      (∀ other, node ∉ sentinels other :: lists other) →
        (listInsert links position node).2 = node ∧
        TurnsLists links (listInsert links position node).1 sentinels lists
          (Function.update lists name (before ++ node :: after))) ∧
    (∀ name before after node, lists name = before ++ node :: after →
      (listRemove links node).2 = node ∧
        TurnsLists links (listRemove links node).1 sentinels lists
          (Function.update lists name (before ++ after))) ∧
    (∀ name before segment after first last target front back position,
      lists name = before ++ segment ++ after → IsSegment first last segment →
      Function.update lists name (before ++ after) target = front ++ back →
      back.head?.getD (sentinels target) = position →
        (listMove links position first last).2 = first ∧
        TurnsLists links (listMove links position first last).1 sentinels lists
          (Function.update (Function.update lists name (before ++ after)) target
            (front ++ segment ++ back))) := by
  refine ⟨?_, ?_, ?_⟩
  · intro name before after position node split here fresh
    exact ⟨rfl, .of_rings rings (rings.insert split fresh here)⟩
  · intro name before after node split
    exact ⟨rfl, .of_rings rings (rings.remove split)⟩
  · intro name before segment after first last target front back position split ends left here
    exact ⟨rfl, .of_rings rings (rings.move split ends left here)⟩

/-- The links of two lists, with the sentinels 0 and 10. -/
def twoLists : Links Nat where
  next := fun node => [1, 2, 3, 0].getD node (if node = 10 then 11 else 10)
  previous := fun node => [3, 0, 1, 2].getD node (if node = 10 then 11 else 10)

/-- The sentinels of the two lists. -/
def twoSentinels (second : Bool) : Nat := if second then 10 else 0

/-- The nodes of the two lists. -/
def twoSequences (second : Bool) : List Nat := if second then [11] else [1, 2, 3]

theorem twoLists_areRings : AreRings twoLists twoSentinels twoSequences := by
  refine ⟨fun second => ?_, by decide⟩
  cases second with
  | false => exact ⟨by decide, ⟨rfl, rfl, rfl, rfl⟩, ⟨rfl, rfl, rfl, rfl⟩⟩
  | true => exact ⟨by decide, ⟨rfl, rfl⟩, ⟨rfl, rfl⟩⟩

/-- Two nodes moved behind the node of another list. -/
theorem lists_refine_sequences_two :
    TurnsLists twoLists (listMove twoLists 10 1 2).1 twoSentinels twoSequences
      (Function.update (Function.update twoSequences false [3]) true [11, 1, 2]) :=
  ((lists_refine_sequences twoLists_areRings).2.2 false [] [1, 2] [3] 1 2 true [11] [] 10 rfl
    ⟨rfl, rfl⟩ rfl rfl).2

end Enet
