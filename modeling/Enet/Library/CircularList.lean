import Mathlib.Data.List.Nodup
import Mathlib.Logic.Function.Iterate

/-!
# Intrusive circular lists

A heap of list nodes is two maps, `next` and `previous`, over any type of
addresses. Insertion, removal and splicing are written as the sequences of
pointer writes that an intrusive list performs, each write reading the heap as
the earlier ones left it.

A ring is a sentinel address with the addresses that follow it: `next` passes
through them in order and comes back, `previous` does so in reverse, and no
address occurs twice. The operations keep rings, and act on the sequence of
addresses as insertion and deletion do.
-/

set_option autoImplicit false

namespace Enet.Library

universe u

/-! ## Paths -/

/-- Following `f` from `first` passes through `nodes`, in order, and then reaches `last`. -/
def Path {α : Type u} (f : α → α) : (first : α) → (nodes : List α) → (last : α) → Prop
  | first, [], last => f first = last
  | first, node :: nodes, last => f first = node ∧ Path f node nodes last

section Path

variable {α : Type u} {f : α → α} {first last node target : α} {nodes before after : List α}

@[simp] theorem path_nil : Path f first [] last ↔ f first = last := Iff.rfl

@[simp] theorem path_cons :
    Path f first (node :: nodes) last ↔ f first = node ∧ Path f node nodes last := Iff.rfl

theorem path_append :
    Path f first (before ++ node :: after) last ↔
      Path f first before node ∧ Path f node after last := by
  induction before generalizing first with
  | nil => exact Iff.rfl
  | cons head before ih => rw [List.cons_append, path_cons, path_cons, ih, and_assoc]

/-- The first hop of a path. -/
theorem Path.apply_first (path : Path f first nodes last) :
    f first = (nodes ++ [last]).head (by simp) := by
  cases nodes with
  | nil => exact path
  | cons node nodes => exact path.1

/-- The end of a path is reached after one step more than it has nodes. -/
theorem Path.iterate (path : Path f first nodes last) : f^[nodes.length + 1] first = last := by
  induction nodes generalizing first with
  | nil => exact path
  | cons node nodes ih =>
      rw [List.length_cons, Function.iterate_succ_apply, path.1]
      exact ih path.2

/-- The path from another start that has the same first hop. -/
theorem Path.restart {start : α} (path : Path f first nodes last) (same : f start = f first) :
    Path f start nodes last := by
  cases nodes with
  | nil => exact same.trans path
  | cons node nodes => exact ⟨same.trans path.1, path.2⟩

variable [DecidableEq α]

/-- A path does not see a change at an address that it does not leave from. -/
theorem Path.update_of_notMem (path : Path f first nodes last) (absent : node ∉ first :: nodes) :
    Path (Function.update f node target) first nodes last := by
  induction nodes generalizing first with
  | nil =>
      have different : first ≠ node := fun same => absent (by simp [same])
      rwa [path_nil, Function.update_of_ne different]
  | cons head nodes ih =>
      have different : first ≠ node := fun same => absent (by simp [same])
      rw [path_cons, Function.update_of_ne different]
      exact ⟨path.1, ih path.2 fun member => absent (List.mem_cons_of_mem _ member)⟩

/-- Changing the last hop of a path changes where it leads. -/
theorem Path.retarget (path : Path f first nodes last) (distinct : (first :: nodes).Nodup) :
    Path (Function.update f ((first :: nodes).getLast (by simp)) target) first nodes target := by
  induction nodes generalizing first with
  | nil => exact Function.update_self ..
  | cons head nodes ih =>
      rw [List.getLast_cons (by simp)]
      have different : first ≠ (head :: nodes).getLast (by simp) := by
        intro same
        exact (List.nodup_cons.mp distinct).1 (same ▸ List.getLast_mem _)
      refine ⟨?_, ih path.2 distinct.of_cons⟩
      rw [Function.update_of_ne different]
      exact path.1

/-- A path with one node taken out. -/
theorem Path.splice (path : Path f first (before ++ node :: after) last)
    (distinct : (first :: (before ++ node :: after)).Nodup) :
    Path (Function.update f ((first :: before).getLast (by simp)) (f node)) first
      (before ++ after) last := by
  rw [path_append] at path
  have separate := List.nodup_append.mp (List.cons_append ▸ distinct)
  have reached : Path (Function.update f ((first :: before).getLast (by simp)) (f node)) first
      before (f node) := path.1.retarget separate.1
  cases after with
  | nil =>
      have ends : f node = last := path.2
      rw [List.append_nil, ← ends]
      exact reached
  | cons next after =>
      have hop : f node = next := path.2.1
      rw [path_append]
      refine ⟨by simpa only [hop] using reached, path.2.2.update_of_notMem ?_⟩
      intro member
      have inAfter : (first :: before).getLast (by simp) ∈ node :: next :: after :=
        List.mem_cons_of_mem _ member
      exact separate.2.2 _ (List.getLast_mem _) _ inAfter rfl

end Path

/-! ## Links -/

/-- The link fields of a heap of intrusive list nodes. -/
structure Links (α : Type u) where
  next : α → α
  previous : α → α

namespace Links

variable {α : Type u} [DecidableEq α]

/-- `node->next = target`. -/
def setNext (links : Links α) (node target : α) : Links α :=
  { links with next := Function.update links.next node target }

/-- `node->previous = target`. -/
def setPrevious (links : Links α) (node target : α) : Links α :=
  { links with previous := Function.update links.previous node target }

/-- Make the sentinel a list of its own. -/
def clear (links : Links α) (sentinel : α) : Links α :=
  (links.setNext sentinel sentinel).setPrevious sentinel sentinel

/-- Link `node` in before `position`. -/
def insert (links : Links α) (position node : α) : Links α :=
  let links := links.setPrevious node (links.previous position)
  let links := links.setNext node position
  let links := links.setNext (links.previous node) node
  links.setPrevious position node

/-- Unlink the node at `position`. -/
def remove (links : Links α) (position : α) : Links α :=
  let links := links.setNext (links.previous position) (links.next position)
  links.setPrevious (links.next position) (links.previous position)

@[simp] theorem setNext_next (links : Links α) (node target : α) :
    (links.setNext node target).next = Function.update links.next node target := rfl

@[simp] theorem setNext_previous (links : Links α) (node target : α) :
    (links.setNext node target).previous = links.previous := rfl

@[simp] theorem setPrevious_next (links : Links α) (node target : α) :
    (links.setPrevious node target).next = links.next := rfl

@[simp] theorem setPrevious_previous (links : Links α) (node target : α) :
    (links.setPrevious node target).previous =
      Function.update links.previous node target := rfl

/-! ## Rings -/

/-- The nodes that follow a sentinel, in order. -/
structure IsRing (links : Links α) (sentinel : α) (nodes : List α) : Prop where
  distinct : (sentinel :: nodes).Nodup
  forward : Path links.next sentinel nodes sentinel
  backward : Path links.previous sentinel nodes.reverse sentinel

variable {links : Links α} {sentinel node : α} {nodes before after : List α}

theorem IsRing.clear (links : Links α) (sentinel : α) :
    IsRing (links.clear sentinel) sentinel [] where
  distinct := by simp
  forward := Function.update_self ..
  backward := Function.update_self ..

omit [DecidableEq α] in
/-- The first node of a ring is the one after the sentinel. -/
theorem IsRing.next_sentinel (ring : IsRing links sentinel nodes) :
    links.next sentinel = nodes.head?.getD sentinel := by
  rw [ring.forward.apply_first]
  cases nodes <;> rfl

omit [DecidableEq α] in
/-- The node before the sentinel is the last one. -/
theorem IsRing.previous_sentinel (ring : IsRing links sentinel nodes) :
    links.previous sentinel = (sentinel :: nodes).getLast (by simp) := by
  rw [ring.backward.apply_first, ← List.head_reverse (by simp)]
  simp only [List.reverse_cons]

omit [DecidableEq α] in
/-- The node before another one. -/
theorem IsRing.previous_node (ring : IsRing links sentinel (before ++ node :: after)) :
    links.previous node = (sentinel :: before).getLast (by simp) := by
  have backward := ring.backward
  rw [List.reverse_append, List.reverse_cons, List.append_assoc, List.singleton_append,
    path_append] at backward
  rw [backward.2.apply_first, ← List.head_reverse (by simp)]
  simp only [List.reverse_cons]

omit [DecidableEq α] in
/-- The node after another one. -/
theorem IsRing.next_node (ring : IsRing links sentinel (before ++ node :: after)) :
    links.next node = (after ++ [sentinel]).head (by simp) :=
  (path_append.mp ring.forward).2.apply_first

omit [DecidableEq α] in
/-- Every node of a ring is reached from the sentinel. -/
theorem IsRing.reaches (ring : IsRing links sentinel nodes) (member : node ∈ nodes) :
    ∃ steps, links.next^[steps] sentinel = node := by
  obtain ⟨before, after, rfl⟩ := List.append_of_mem member
  exact ⟨_, (path_append.mp ring.forward).1.iterate⟩

omit [DecidableEq α] in
/-- A path that does not meet its end on the way is determined by its start. -/
theorem Path.unique {f : α → α} {first last : α} {nodes others : List α}
    (path : Path f first nodes last) (other : Path f first others last)
    (apart : last ∉ nodes) (otherApart : last ∉ others) : nodes = others := by
  induction nodes generalizing first others with
  | nil =>
      cases others with
      | nil => rfl
      | cons head others => exact absurd (path.symm.trans other.1) (by grind)
  | cons node nodes ih =>
      cases others with
      | nil => exact absurd (other.symm.trans path.1) (by grind)
      | cons head others =>
          have same : node = head := path.1.symm.trans other.1
          subst same
          rw [ih path.2 other.2 (by grind) (by grind)]

omit [DecidableEq α] in
/-- The links determine the ring. -/
theorem IsRing.unique {others : List α} (ring : IsRing links sentinel nodes)
    (other : IsRing links sentinel others) : nodes = others :=
  Path.unique ring.forward other.forward (List.nodup_cons.mp ring.distinct).1
    (List.nodup_cons.mp other.distinct).1

/-- **Inserting before the sentinel appends to the ring.** -/
theorem IsRing.insert (ring : IsRing links sentinel nodes) (fresh : node ∉ sentinel :: nodes) :
    IsRing (links.insert sentinel node) sentinel (nodes ++ [node]) := by
  have different : node ≠ sentinel := fun same => fresh (by simp [same])
  have last := ring.previous_sentinel
  have apart : node ≠ (sentinel :: nodes).getLast (by simp) :=
    fun same => fresh (same ▸ List.getLast_mem _)
  refine ⟨?_, ?_, ?_⟩
  · have permuted := List.perm_append_singleton node nodes
    rw [List.nodup_cons, permuted.nodup_iff, permuted.mem_iff, ← List.nodup_cons]
    refine (List.Perm.swap sentinel node nodes).nodup_iff.mp ?_
    exact List.nodup_cons.mpr ⟨fresh, ring.distinct⟩
  · simp only [Links.insert, setPrevious_next, setNext_next, setPrevious_previous,
      setNext_previous, Function.update_self, last]
    rw [path_append]
    refine ⟨(ring.forward.update_of_notMem fresh).retarget ring.distinct, ?_⟩
    rw [path_nil, Function.update_of_ne apart, Function.update_self]
  · simp only [Links.insert, setPrevious_previous, setNext_previous]
    rw [List.reverse_append, List.reverse_singleton, List.singleton_append, path_cons,
      Function.update_self]
    have absent : node ∉ sentinel :: nodes.reverse := by simpa using fresh
    have restarted :
        Path (Function.update links.previous node (links.previous sentinel)) node
          nodes.reverse sentinel := by
      refine (ring.backward.update_of_notMem absent).restart ?_
      rw [Function.update_self, Function.update_of_ne different.symm]
    refine ⟨rfl, restarted.update_of_notMem ?_⟩
    have outside := (List.nodup_cons.mp ring.distinct).1
    simpa [different.symm] using outside

/-- **Removing a node deletes it from the ring.** -/
theorem IsRing.remove (ring : IsRing links sentinel (before ++ node :: after)) :
    IsRing (links.remove node) sentinel (before ++ after) := by
  have previous := ring.previous_node
  have shorter : (before ++ after).Sublist (before ++ node :: after) :=
    (List.Sublist.refl before).append (List.sublist_cons_self node after)
  have apart : node ≠ (sentinel :: before).getLast (by simp) := by
    intro same
    have distinct := ring.distinct
    rw [← List.cons_append, List.nodup_append] at distinct
    exact distinct.2.2 _ (List.getLast_mem (by simp)) node List.mem_cons_self same.symm
  have reversed : (before ++ node :: after).reverse = after.reverse ++ node :: before.reverse := by
    simp
  refine ⟨ring.distinct.sublist (shorter.cons_cons sentinel), ?_, ?_⟩
  · simp only [Links.remove, setPrevious_next, setNext_next, previous]
    exact ring.forward.splice ring.distinct
  · simp only [Links.remove, setPrevious_previous, setNext_next, setNext_previous, previous]
    rw [Function.update_of_ne apart]
    have next : links.next node = (sentinel :: after.reverse).getLast (by simp) := by
      rw [ring.next_node, ← List.head_reverse (by simp)]
      simp only [List.reverse_cons, List.reverse_reverse]
    have backward := ring.backward
    rw [reversed] at backward
    rw [List.reverse_append, next, ← previous]
    refine backward.splice ?_
    rw [← reversed]
    simpa only [List.nodup_cons, List.nodup_reverse, List.mem_reverse] using ring.distinct

end Links

end Enet.Library
