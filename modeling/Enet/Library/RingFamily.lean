import Enet.Library.CircularList
import Mathlib.Data.List.Chain

/-!
# Families of circular lists

A heap of list nodes holds any number of rings that share no node. What an
operation does is said once for a segment of nodes: a segment is taken out of a
ring, and a segment that belongs to no ring is put in at a position of one. An
insertion puts in a segment of one node, a removal takes one out, and a move does
both, where the position is one of the ring that is left.

A position is a node or the sentinel: it is the head of what follows it in the
ring, with the sentinel behind the last node.
-/

set_option autoImplicit false

namespace Enet.Library

universe u v

namespace Links

variable {α : Type u} {links links' : Links α} {sentinel first last position : α}
  {nodes before segment after : List α}

/-! ## Chains of links -/

/-- One node is linked before another. -/
def Linked (links : Links α) (node other : α) : Prop :=
  links.next node = other ∧ links.previous other = node

/-- The links inside a chain are those of its inner nodes and ends. -/
theorem chain_congr (chain : nodes.IsChain links.Linked)
    (next : ∀ node ∈ nodes.dropLast, links'.next node = links.next node)
    (previous : ∀ node ∈ nodes.tail, links'.previous node = links.previous node) :
    nodes.IsChain links'.Linked := by
  induction nodes with
  | nil => exact .nil
  | cons node nodes ih =>
      cases nodes with
      | nil => exact .singleton node
      | cons other nodes =>
          obtain ⟨⟨forward, backward⟩, rest⟩ := List.isChain_cons_cons.mp chain
          have nextFirst := next node (by simp)
          have previousFirst := previous other (by simp)
          refine List.isChain_cons_cons.mpr ⟨⟨nextFirst.trans forward,
            previousFirst.trans backward⟩, ih rest (fun inner member => ?_) fun inner member => ?_⟩
          · exact next inner (by
              rw [List.dropLast_cons_cons]
              exact List.mem_cons_of_mem _ member)
          · exact previous inner (List.mem_cons_of_mem _ member)

theorem path_iff_isChain {f : α → α} : Path f first nodes last ↔
    (first :: (nodes ++ [last])).IsChain fun node other => f node = other := by
  induction nodes generalizing first with
  | nil => simp
  | cons node nodes ih => rw [path_cons, List.cons_append, List.isChain_cons_cons, ih]

theorem isChain_linked_iff : nodes.IsChain links.Linked ↔
    (nodes.IsChain fun node other => links.next node = other) ∧
      nodes.IsChain fun node other => links.previous other = node := by
  induction nodes with
  | nil => simp
  | cons node nodes ih =>
      cases nodes with
      | nil => simp
      | cons other nodes =>
          rw [List.isChain_cons_cons, List.isChain_cons_cons, List.isChain_cons_cons, ih]
          unfold Linked
          tauto

/-- A ring is a chain from its sentinel back to it. -/
theorem isRing_iff : IsRing links sentinel nodes ↔
    (sentinel :: nodes).Nodup ∧ (sentinel :: (nodes ++ [sentinel])).IsChain links.Linked := by
  have reversed : sentinel :: (nodes.reverse ++ [sentinel]) =
      (sentinel :: (nodes ++ [sentinel])).reverse := by simp
  have backward : Path links.previous sentinel nodes.reverse sentinel ↔
      (sentinel :: (nodes ++ [sentinel])).IsChain fun node other =>
        links.previous other = node := by
    rw [path_iff_isChain, reversed, List.isChain_reverse]
  rw [isChain_linked_iff, ← backward, ← path_iff_isChain]
  exact ⟨fun ring => ⟨ring.distinct, ring.forward, ring.backward⟩,
    fun ⟨distinct, forward, backward⟩ => ⟨distinct, forward, backward⟩⟩

/-- A ring does not see the links of other nodes. -/
theorem IsRing.congr (ring : IsRing links sentinel nodes)
    (next : ∀ node ∈ sentinel :: nodes, links'.next node = links.next node)
    (previous : ∀ node ∈ sentinel :: nodes, links'.previous node = links.previous node) :
    IsRing links' sentinel nodes := by
  obtain ⟨distinct, chain⟩ := isRing_iff.mp ring
  refine isRing_iff.mpr ⟨distinct, chain_congr chain (fun node member => next node ?_)
    fun node member => previous node ?_⟩
  · rw [← List.cons_append, List.dropLast_concat] at member
    exact member
  · rw [List.tail_cons, List.mem_append, List.mem_singleton] at member
    exact List.mem_cons.mpr member.symm

/-- The links of the nodes of a ring are determined by it. -/
theorem IsRing.links_eq (ring : IsRing links sentinel nodes) (same : IsRing links' sentinel nodes) :
    ∀ node ∈ sentinel :: nodes,
      links'.next node = links.next node ∧ links'.previous node = links.previous node := by
  intro node member
  rcases List.mem_cons.mp member with rfl | member
  · exact ⟨same.next_sentinel.trans ring.next_sentinel.symm,
      same.previous_sentinel.trans ring.previous_sentinel.symm⟩
  · obtain ⟨before, after, rfl⟩ := List.append_of_mem member
    exact ⟨same.next_node.trans ring.next_node.symm,
      same.previous_node.trans ring.previous_node.symm⟩

/-! ## Segments -/

variable [DecidableEq α]

/-- Unlink the nodes from `first` to `last`. -/
def unlinkSegment (links : Links α) (first last : α) : Links α :=
  let links := links.setNext (links.previous first) (links.next last)
  links.setPrevious (links.next last) (links.previous first)

/-- Link the nodes from `first` to `last` in before `position`. -/
def linkSegment (links : Links α) (position first last : α) : Links α :=
  let links := links.setPrevious first (links.previous position)
  let links := links.setNext last position
  let links := links.setNext (links.previous first) first
  links.setPrevious position last

/-- Move the nodes from `first` to `last` to the place before `position`. -/
def move (links : Links α) (position first last : α) : Links α :=
  (links.unlinkSegment first last).linkSegment position first last

@[simp] theorem unlinkSegment_next (links : Links α) (first last : α) :
    (links.unlinkSegment first last).next =
      Function.update links.next (links.previous first) (links.next last) := rfl

theorem unlinkSegment_previous (links : Links α) {first last : α}
    (apart : last ≠ links.previous first) :
    (links.unlinkSegment first last).previous =
      Function.update links.previous (links.next last) (links.previous first) := by
  have target : Function.update links.next (links.previous first) (links.next last) last =
      links.next last := Function.update_of_ne apart ..
  unfold unlinkSegment
  simp only [setPrevious_previous, setNext_previous, setNext_next, target]

@[simp] theorem linkSegment_next (links : Links α) (position first last : α) :
    (links.linkSegment position first last).next =
      Function.update (Function.update links.next last position) (links.previous position)
        first := by
  unfold linkSegment
  simp only [setPrevious_next, setNext_next, setNext_previous, setPrevious_previous,
    Function.update_self]

@[simp] theorem linkSegment_previous (links : Links α) (position first last : α) :
    (links.linkSegment position first last).previous =
      Function.update (Function.update links.previous first (links.previous position)) position
        last := rfl

omit [DecidableEq α] in
/-- The nodes from the first to the last one of a list. -/
structure IsSegment (first last : α) (segment : List α) : Prop where
  first : segment.head? = some first
  last : segment.getLast? = some last

namespace IsSegment

omit [DecidableEq α]

theorem singleton (node : α) : IsSegment node node [node] := ⟨rfl, rfl⟩

theorem cons_tail (ends : IsSegment first last segment) : segment = first :: segment.tail :=
  (List.cons_head?_tail ends.first).symm

theorem dropLast_concat (ends : IsSegment first last segment) :
    segment = segment.dropLast ++ [last] :=
  (List.dropLast_append_getLast? last ends.last).symm

theorem first_mem (ends : IsSegment first last segment) : first ∈ segment :=
  List.mem_of_head? ends.first

theorem last_mem (ends : IsSegment first last segment) : last ∈ segment :=
  List.mem_of_getLast? ends.last

end IsSegment

omit [DecidableEq α] in
/-- The node before a segment of a ring, and the one behind it. -/
theorem IsRing.around (ring : IsRing links sentinel (before ++ segment ++ after))
    (ends : IsSegment first last segment) :
    links.previous first = (sentinel :: before).getLast (by simp) ∧
      links.next last = (after ++ [sentinel]).head (by simp) := by
  constructor
  · have split : before ++ segment ++ after = before ++ first :: (segment.tail ++ after) := by
      rw [List.append_assoc, ends.cons_tail, List.tail_cons, List.cons_append]
    rw [split] at ring
    exact ring.previous_node
  · have split : before ++ segment ++ after = (before ++ segment.dropLast) ++ last :: after := by
      rw [ends.dropLast_concat, List.dropLast_concat]
      simp
    rw [split] at ring
    exact ring.next_node

omit [DecidableEq α] in
theorem getLast_notMem_dropLast (distinct : nodes.Nodup) (nonempty : nodes ≠ []) :
    nodes.getLast nonempty ∉ nodes.dropLast := by
  intro member
  have split := distinct
  rw [← List.dropLast_append_getLast nonempty] at split
  exact (List.nodup_append.mp split).2.2 _ member _ (List.mem_singleton_self _) rfl

omit [DecidableEq α] in
theorem head_notMem_tail (distinct : nodes.Nodup) (nonempty : nodes ≠ []) :
    nodes.head nonempty ∉ nodes.tail := by
  cases nodes with
  | nil => exact absurd rfl nonempty
  | cons node nodes => exact (List.nodup_cons.mp distinct).1

omit [DecidableEq α] in
/-- The parts of a ring share no node, but for the sentinel at both ends. -/
theorem nodup_parts (distinct : (sentinel :: (before ++ segment ++ after)).Nodup) :
    (sentinel :: before).Nodup ∧ segment.Nodup ∧ (after ++ [sentinel]).Nodup ∧
      (∀ node ∈ sentinel :: before, node ∉ segment ∧ node ∉ after) ∧
      ∀ node ∈ after ++ [sentinel], node ∉ segment ∧ node ∉ before := by
  rw [← List.cons_append, ← List.cons_append, List.nodup_append, List.nodup_append] at distinct
  obtain ⟨⟨nodupBefore, nodupSegment, apartSegment⟩, nodupAfter, apartAfter⟩ := distinct
  refine ⟨nodupBefore, nodupSegment, ?_, fun node member => ⟨fun inSegment => ?_,
    fun inAfter => ?_⟩, fun node member => ⟨fun inSegment => ?_, fun inBefore => ?_⟩⟩
  · exact List.nodup_append.mpr ⟨nodupAfter, List.nodup_singleton _, by grind⟩
  · exact apartSegment node member node inSegment rfl
  · exact apartAfter node (List.mem_append_left _ member) node inAfter rfl
  · rcases List.mem_append.mp member with inAfter | here
    · exact apartAfter node (List.mem_append_right _ inSegment) node inAfter rfl
    · exact apartSegment sentinel List.mem_cons_self node inSegment
        (List.mem_singleton.mp here).symm
  · rcases List.mem_append.mp member with inAfter | here
    · exact apartAfter node (by simp [inBefore]) node inAfter rfl
    · exact (List.nodup_cons.mp nodupBefore).1 (List.mem_singleton.mp here ▸ inBefore)

/-- **A segment taken out of a ring** leaves the rest of the ring, and is a chain of its
own. -/
theorem IsRing.unlinkSegment (ring : IsRing links sentinel (before ++ segment ++ after))
    (ends : IsSegment first last segment) :
    IsRing (links.unlinkSegment first last) sentinel (before ++ after) ∧
      segment.IsChain (links.unlinkSegment first last).Linked := by
  obtain ⟨previous, next⟩ := ring.around ends
  obtain ⟨distinct, chain⟩ := isRing_iff.mp ring
  have cycle : sentinel :: (before ++ segment ++ after ++ [sentinel]) =
      (sentinel :: before) ++ (segment ++ (after ++ [sentinel])) := by simp
  rw [cycle, List.isChain_append, List.isChain_append] at chain
  obtain ⟨chainBefore, ⟨chainSegment, chainAfter, -⟩, -⟩ := chain
  obtain ⟨nodupBefore, nodupSegment, nodupAfter, apartBefore, apartAfter⟩ := nodup_parts distinct
  have start := List.getLast_mem (l := sentinel :: before) (by simp)
  have target := List.head_mem (l := after ++ [sentinel]) (by simp)
  have startInner := getLast_notMem_dropLast nodupBefore (by simp)
  have targetInner := head_notMem_tail nodupAfter (by simp)
  rw [← previous] at start startInner
  rw [← next] at target targetInner
  have apart : last ≠ links.previous first := fun same =>
    (apartBefore _ start).1 (same ▸ ends.last_mem)
  have keepsNext : ∀ node, node ≠ links.previous first →
      (links.unlinkSegment first last).next node = links.next node := by
    intro node different
    rw [unlinkSegment_next, Function.update_of_ne different]
  have keepsPrevious : ∀ node, node ≠ links.next last →
      (links.unlinkSegment first last).previous node = links.previous node := by
    intro node different
    rw [unlinkSegment_previous links apart, Function.update_of_ne different]
  have hop : (links.unlinkSegment first last).Linked (links.previous first) (links.next last) := by
    refine ⟨?_, ?_⟩
    · rw [unlinkSegment_next, Function.update_self]
    · rw [unlinkSegment_previous links apart, Function.update_self]
  constructor
  · refine isRing_iff.mpr ⟨distinct.sublist (by simp), ?_⟩
    have rest : sentinel :: (before ++ after ++ [sentinel]) =
        (sentinel :: before) ++ (after ++ [sentinel]) := by simp
    rw [rest, List.isChain_append]
    refine ⟨chain_congr chainBefore ?_ ?_, chain_congr chainAfter ?_ ?_, ?_⟩
    · exact fun node member => keepsNext node fun same => startInner (same ▸ member)
    · exact fun node member => keepsPrevious node fun same =>
        (apartAfter _ target).2 (same ▸ member)
    · intro node member
      rw [List.dropLast_concat] at member
      exact keepsNext node fun same => (apartBefore _ start).2 (same ▸ member)
    · exact fun node member => keepsPrevious node fun same => targetInner (same ▸ member)
    · intro node isLast other isFirst
      rw [List.getLast?_eq_some_getLast (by simp), ← previous] at isLast
      rw [List.head?_eq_some_head (by simp), ← next] at isFirst
      cases isLast
      cases isFirst
      exact hop
  · refine chain_congr chainSegment ?_ ?_
    · exact fun node member => keepsNext node fun same =>
        (apartBefore _ start).1 (same ▸ List.dropLast_subset _ member)
    · exact fun node member => keepsPrevious node fun same =>
        (apartAfter _ target).1 (same ▸ List.mem_of_mem_tail member)

/-- **A segment put into a ring** at a position. -/
theorem IsRing.linkSegment (ring : IsRing links sentinel (before ++ after))
    (ends : IsSegment first last segment) (chainSegment : segment.IsChain links.Linked)
    (nodupSegment : segment.Nodup) (fresh : ∀ node ∈ segment, node ∉ sentinel :: (before ++ after))
    (here : after.head?.getD sentinel = position) :
    IsRing (links.linkSegment position first last) sentinel (before ++ segment ++ after) := by
  obtain ⟨distinct, chain⟩ := isRing_iff.mp ring
  have cycle : sentinel :: (before ++ after ++ [sentinel]) =
      (sentinel :: before) ++ (after ++ [sentinel]) := by simp
  have head : (after ++ [sentinel]).head (by simp) = position := by
    rw [← here]
    cases after <;> rfl
  rw [cycle, List.isChain_append] at chain
  obtain ⟨chainBefore, chainAfter, hop⟩ := chain
  have linked := hop _ (List.getLast?_eq_some_getLast (by simp)) _
    (List.head?_eq_some_head (by simp))
  rw [head] at linked
  have distinctAll : (sentinel :: (before ++ segment ++ after)).Nodup := by
    have permuted : (sentinel :: (before ++ segment ++ after)).Perm
        (segment ++ sentinel :: (before ++ after)) := by
      rw [List.append_assoc, ← List.cons_append, ← List.cons_append]
      exact List.perm_append_comm_assoc ..
    rw [permuted.nodup_iff, List.nodup_append]
    exact ⟨nodupSegment, distinct, fun node member other inRing same =>
      fresh node member (same ▸ inRing)⟩
  obtain ⟨nodupBefore, -, nodupAfter, apartBefore, apartAfter⟩ := nodup_parts distinctAll
  have start := List.getLast_mem (l := sentinel :: before) (by simp)
  have target := List.head_mem (l := after ++ [sentinel]) (by simp)
  have startInner := getLast_notMem_dropLast nodupBefore (by simp)
  have targetInner := head_notMem_tail nodupAfter (by simp)
  rw [← linked.2] at start startInner
  rw [head] at target targetInner
  have lastApart : last ≠ links.previous position := fun same =>
    (apartBefore _ start).1 (same ▸ ends.last_mem)
  have firstApart : first ≠ position := fun same =>
    (apartAfter _ target).1 (same ▸ ends.first_mem)
  have keepsNext : ∀ node, node ≠ last → node ≠ links.previous position →
      (links.linkSegment position first last).next node = links.next node := by
    intro node notLast notStart
    rw [linkSegment_next, Function.update_of_ne notStart, Function.update_of_ne notLast]
  have keepsPrevious : ∀ node, node ≠ first → node ≠ position →
      (links.linkSegment position first last).previous node = links.previous node := by
    intro node notFirst notTarget
    rw [linkSegment_previous, Function.update_of_ne notTarget, Function.update_of_ne notFirst]
  have enters : (links.linkSegment position first last).Linked (links.previous position) first := by
    refine ⟨?_, ?_⟩
    · rw [linkSegment_next, Function.update_self]
    · rw [linkSegment_previous, Function.update_of_ne firstApart, Function.update_self]
  have leaves : (links.linkSegment position first last).Linked last position := by
    refine ⟨?_, ?_⟩
    · rw [linkSegment_next, Function.update_of_ne lastApart, Function.update_self]
    · rw [linkSegment_previous, Function.update_self]
  refine isRing_iff.mpr ⟨distinctAll, ?_⟩
  have rest : sentinel :: (before ++ segment ++ after ++ [sentinel]) =
      (sentinel :: before) ++ (segment ++ (after ++ [sentinel])) := by simp
  rw [rest, List.isChain_append, List.isChain_append]
  refine ⟨chain_congr chainBefore ?_ ?_, ⟨chain_congr chainSegment ?_ ?_,
    chain_congr chainAfter ?_ ?_, ?_⟩, ?_⟩
  · intro node member
    refine keepsNext node ?_ fun same => startInner (same ▸ member)
    exact fun same => (apartBefore node (List.dropLast_subset _ member)).1 (same ▸ ends.last_mem)
  · intro node member
    refine keepsPrevious node ?_ fun same => (apartAfter _ target).2 (same ▸ member)
    exact fun same => (apartBefore node (List.mem_of_mem_tail member)).1 (same ▸ ends.first_mem)
  · intro node member
    refine keepsNext node ?_ fun same =>
      (apartBefore _ start).1 (same ▸ List.dropLast_subset _ member)
    rintro rfl
    rw [ends.dropLast_concat] at nodupSegment
    exact (List.nodup_append.mp nodupSegment).2.2 _ member _ (List.mem_singleton_self _) rfl
  · intro node member
    refine keepsPrevious node ?_ fun same =>
      (apartAfter _ target).1 (same ▸ List.mem_of_mem_tail member)
    rintro rfl
    rw [ends.cons_tail] at nodupSegment
    exact (List.nodup_cons.mp nodupSegment).1 member
  · intro node member
    rw [List.dropLast_concat] at member
    refine keepsNext node ?_ fun same => (apartBefore _ start).2 (same ▸ member)
    exact fun same => (apartAfter node (List.mem_append_left _ member)).1 (same ▸ ends.last_mem)
  · intro node member
    refine keepsPrevious node ?_ fun same => targetInner (same ▸ member)
    exact fun same => (apartAfter node (List.mem_of_mem_tail member)).1 (same ▸ ends.first_mem)
  · intro node isLast other isFirst
    rw [ends.last] at isLast
    rw [List.head?_eq_some_head (by simp), head] at isFirst
    cases isLast
    cases isFirst
    exact leaves
  · intro node isLast other isFirst
    rw [List.getLast?_eq_some_getLast (by simp), ← linked.2] at isLast
    rw [List.head?_append, ends.first] at isFirst
    cases isLast
    cases isFirst
    exact enters

/-! ## Families -/

/-- Rings that share no node, under the names of their family. -/
structure AreRings {ι : Type v} (links : Links α) (sentinel : ι → α) (nodes : ι → List α) :
    Prop where
  ring : ∀ name, IsRing links (sentinel name) (nodes name)
  disjoint : ∀ name other, name ≠ other →
    ∀ node ∈ sentinel name :: nodes name, node ∉ sentinel other :: nodes other

namespace AreRings

variable {ι : Type v} [DecidableEq ι] {sentinels : ι → α} {lists : ι → List α} {name : ι}

omit [DecidableEq α] in
/-- A change inside one ring and outside of all others. -/
theorem of_ring (rings : AreRings links sentinels lists)
    (ring : IsRing links' (sentinels name) nodes)
    (apart : ∀ node ∈ nodes, ∀ other, other ≠ name → node ∉ sentinels other :: lists other)
    (next : ∀ other, other ≠ name → ∀ node ∈ sentinels other :: lists other,
      links'.next node = links.next node)
    (previous : ∀ other, other ≠ name → ∀ node ∈ sentinels other :: lists other,
      links'.previous node = links.previous node) :
    AreRings links' sentinels (Function.update lists name nodes) := by
  have within : ∀ node ∈ sentinels name :: nodes, ∀ other, other ≠ name →
      node ∉ sentinels other :: lists other := by
    intro node member other different
    rcases List.mem_cons.mp member with rfl | member
    · exact rings.disjoint name other different.symm _ List.mem_cons_self
    · exact apart node member other different
  constructor
  · intro other
    rcases eq_or_ne other name with rfl | different
    · rw [Function.update_self]
      exact ring
    · rw [Function.update_of_ne different]
      exact (rings.ring other).congr (next other different) (previous other different)
  · intro one other different node member inOther
    rcases eq_or_ne one name with rfl | oneDifferent
    · rw [Function.update_self] at member
      rw [Function.update_of_ne different.symm] at inOther
      exact within node member other different.symm inOther
    · rw [Function.update_of_ne oneDifferent] at member
      rcases eq_or_ne other name with rfl | otherDifferent
      · rw [Function.update_self] at inOther
        exact within node inOther one oneDifferent member
      · rw [Function.update_of_ne otherDifferent] at inOther
        exact rings.disjoint one other different node member inOther

/-- **A segment taken out** of one ring of a family belongs to none of them. -/
theorem unlinkSegment (rings : AreRings links sentinels lists)
    (split : lists name = before ++ segment ++ after) (ends : IsSegment first last segment) :
    AreRings (links.unlinkSegment first last) sentinels
        (Function.update lists name (before ++ after)) ∧
      segment.IsChain (links.unlinkSegment first last).Linked ∧ segment.Nodup ∧
      ∀ node ∈ segment, ∀ other,
        node ∉ sentinels other :: Function.update lists name (before ++ after) other := by
  have ring := rings.ring name
  rw [split] at ring
  obtain ⟨previous, next⟩ := ring.around ends
  obtain ⟨-, nodupSegment, -, apartBefore, apartAfter⟩ := nodup_parts ring.distinct
  obtain ⟨rest, chain⟩ := ring.unlinkSegment ends
  have start := List.getLast_mem (l := sentinels name :: before) (by simp)
  have target := List.head_mem (l := after ++ [sentinels name]) (by simp)
  rw [← previous] at start
  rw [← next] at target
  have elsewhere : ∀ node ∈ sentinels name :: (before ++ segment ++ after), ∀ other,
      other ≠ name → node ∉ sentinels other :: lists other := by
    intro node member other different
    rw [← split] at member
    exact rings.disjoint name other different.symm node member
  have startIn : links.previous first ∈ sentinels name :: (before ++ segment ++ after) := by
    rw [List.append_assoc, ← List.cons_append]
    exact List.mem_append_left _ start
  have targetIn : links.next last ∈ sentinels name :: (before ++ segment ++ after) := by
    rcases List.mem_append.mp target with inAfter | here
    · exact List.mem_cons_of_mem _ (List.mem_append_right _ inAfter)
    · exact List.mem_singleton.mp here ▸ List.mem_cons_self
  have apart : last ≠ links.previous first := fun same =>
    (apartBefore _ start).1 (same ▸ ends.last_mem)
  refine ⟨rings.of_ring rest ?_ ?_ ?_, chain, nodupSegment, ?_⟩
  · intro node member
    refine elsewhere node (List.mem_cons_of_mem _ ?_)
    rcases List.mem_append.mp member with inBefore | inAfter
    · exact List.mem_append_left _ (List.mem_append_left _ inBefore)
    · exact List.mem_append_right _ inAfter
  · intro other different node member
    have notStart : node ≠ links.previous first := fun same =>
      elsewhere _ startIn other different (same ▸ member)
    rw [unlinkSegment_next, Function.update_of_ne notStart]
  · intro other different node member
    have notTarget : node ≠ links.next last := fun same =>
      elsewhere _ targetIn other different (same ▸ member)
    rw [unlinkSegment_previous links apart, Function.update_of_ne notTarget]
  · intro node member other inOther
    rcases eq_or_ne other name with rfl | different
    · rw [Function.update_self] at inOther
      rcases List.mem_cons.mp inOther with here | inRest
      · exact (apartBefore _ List.mem_cons_self).1 (here ▸ member)
      · rcases List.mem_append.mp inRest with inBefore | inAfter
        · exact (apartBefore node (List.mem_cons_of_mem _ inBefore)).1 member
        · exact (apartAfter node (List.mem_append_left _ inAfter)).1 member
    · rw [Function.update_of_ne different] at inOther
      refine elsewhere node (List.mem_cons_of_mem _ ?_) other different inOther
      exact List.mem_append_left _ (List.mem_append_right _ member)

/-- **A segment put in** at a position of one ring of a family to which it does not
belong. -/
theorem linkSegment (rings : AreRings links sentinels lists)
    (split : lists name = before ++ after) (ends : IsSegment first last segment)
    (chain : segment.IsChain links.Linked) (nodupSegment : segment.Nodup)
    (fresh : ∀ node ∈ segment, ∀ other, node ∉ sentinels other :: lists other)
    (here : after.head?.getD (sentinels name) = position) :
    AreRings (links.linkSegment position first last) sentinels
      (Function.update lists name (before ++ segment ++ after)) := by
  have ring := rings.ring name
  rw [split] at ring
  have linked := ring.linkSegment ends chain nodupSegment (split ▸ fun node member =>
    fresh node member name) here
  have positionIn : position ∈ sentinels name :: lists name := by
    rw [← here, split]
    cases after <;> simp
  have startIn : links.previous position ∈ sentinels name :: lists name := by
    rcases List.mem_cons.mp positionIn with here | member
    · rw [here, (rings.ring name).previous_sentinel]
      exact List.getLast_mem _
    · obtain ⟨front, back, whole⟩ := List.append_of_mem member
      have previous := (whole ▸ rings.ring name).previous_node
      rw [previous, whole, ← List.cons_append]
      exact List.mem_append_left _ (List.getLast_mem _)
  refine rings.of_ring linked ?_ ?_ ?_
  · intro node member other different
    rcases List.mem_append.mp member with front | inAfter
    · rcases List.mem_append.mp front with inBefore | inSegment
      · refine rings.disjoint name other different.symm node (List.mem_cons_of_mem _ ?_)
        exact split ▸ List.mem_append_left _ inBefore
      · exact fresh node inSegment other
    · refine rings.disjoint name other different.symm node (List.mem_cons_of_mem _ ?_)
      exact split ▸ List.mem_append_right _ inAfter
  · intro other different node member
    have notStart : node ≠ links.previous position := fun same =>
      rings.disjoint name other different.symm _ startIn (same ▸ member)
    have notLast : node ≠ last := fun same => fresh last ends.last_mem other (same ▸ member)
    rw [linkSegment_next, Function.update_of_ne notStart, Function.update_of_ne notLast]
  · intro other different node member
    have notPosition : node ≠ position := fun same =>
      rings.disjoint name other different.symm _ positionIn (same ▸ member)
    have notFirst : node ≠ first := fun same => fresh first ends.first_mem other (same ▸ member)
    rw [linkSegment_previous, Function.update_of_ne notPosition, Function.update_of_ne notFirst]

/-- **Insertion**: a node of no ring, put in at a position of one. -/
theorem insert (rings : AreRings links sentinels lists) {node : α}
    (split : lists name = before ++ after)
    (fresh : ∀ other, node ∉ sentinels other :: lists other)
    (here : after.head?.getD (sentinels name) = position) :
    AreRings (links.insert position node) sentinels
      (Function.update lists name (before ++ node :: after)) := by
  have linked := rings.linkSegment split (.singleton node) (.singleton node)
    (List.nodup_singleton node) (fun other member => List.mem_singleton.mp member ▸ fresh) here
  rw [List.append_assoc] at linked
  exact linked

/-- **Removal** of a node. -/
theorem remove (rings : AreRings links sentinels lists) {node : α}
    (split : lists name = before ++ node :: after) :
    AreRings (links.remove node) sentinels (Function.update lists name (before ++ after)) := by
  refine (rings.unlinkSegment ?_ (.singleton node)).1
  rw [split, List.append_assoc]
  rfl

/-- **A move** takes a segment out of one ring and puts it in at a position of a ring,
the same or another, among the nodes that are left. -/
theorem move (rings : AreRings links sentinels lists) {target : ι} {front back : List α}
    (split : lists name = before ++ segment ++ after) (ends : IsSegment first last segment)
    (left : Function.update lists name (before ++ after) target = front ++ back)
    (here : back.head?.getD (sentinels target) = position) :
    AreRings (links.move position first last) sentinels
      (Function.update (Function.update lists name (before ++ after)) target
        (front ++ segment ++ back)) := by
  obtain ⟨rest, chain, nodupSegment, fresh⟩ := rings.unlinkSegment split ends
  exact rest.linkSegment left ends chain nodupSegment fresh here

end AreRings

end Links

end Enet.Library
