import Enet.Compress.Contexts

/-!
# The trees of all contexts

Each symbol of the table is itself a context, so the table holds a forest: the
trees of its contexts share no symbol. A symbol stands for the values on its path
from the root, and its parent for the same values without the first of them; a
symbol that was created for the current byte has its parent written one context
later.
-/

set_option autoImplicit false

namespace Enet

/-- The values that lead from the root to a symbol, the last one first. -/
inductive Path (forest : Nat → CodeTree) : List Nat → Nat → Prop where
  | root : Path forest [] 0
  | child {path : List Nat} {context value index : Nat} (inContext : Path forest path context)
      (member : (value, index) ∈ (forest context).names) : Path forest (value :: path) index

theorem Path.mono {forest forest' : Nat → CodeTree} {path : List Nat} {index : Nat}
    (leads : Path forest path index)
    (grows : ∀ context, (forest context).names ⊆ (forest' context).names) :
    Path forest' path index := by
  induction leads with
  | root => exact .root
  | child inContext member ih => exact .child ih (grows _ member)

/-- The trees of the contexts in use. The parents of some symbols are not written yet. -/
structure Forest (Kind : CodeTree → Prop) (coder : RangeCoder) (forest : Nat → CodeTree)
    (pending : List Nat) : Prop where
  rooted : 0 < coder.nextSymbol
  room : coder.nextSymbol ≤ rangeCoderSymbols
  holds : ∀ context < coder.nextSymbol,
    Holds coder.symbols context (coder.symbols context).symbols (forest context)
  beyond : ∀ context, coder.nextSymbol ≤ context → forest context = .nil
  inside : ∀ context, ∀ index ∈ (forest context).indices, index < coder.nextSymbol
  distinct : ∀ context, (forest context).indices.Nodup
  apart : ∀ context context' index, index ∈ (forest context).indices →
    index ∈ (forest context').indices → context = context'
  kept : ∀ context, Kind (forest context)
  covered : ∀ index < coder.nextSymbol, index ≠ 0 → ∃ context, index ∈ (forest context).indices
  parents : ∀ value path index, Path forest (value :: path) index → index ∉ pending →
    Path forest (value :: path).dropLast (coder.symbols index).parent

namespace Forest

variable {Kind : CodeTree → Prop} {coder coder' : RangeCoder} {forest forest' : Nat → CodeTree}
  {pending : List Nat} {context : Nat}

/-! ## Paths -/

/-- A context with a symbol is in use. -/
theorem context_lt (inv : Forest Kind coder forest pending) {index : Nat}
    (member : index ∈ (forest context).indices) : context < coder.nextSymbol := by
  by_contra above
  rw [inv.beyond context (Nat.not_lt.mp above)] at member
  exact absurd member List.not_mem_nil

/-- The root is in no context. -/
theorem index_ne_zero (inv : Forest Kind coder forest pending) {index : Nat}
    (member : index ∈ (forest context).indices) : index ≠ 0 := by
  have := (inv.holds context (inv.context_lt member)).above index member
  omega

theorem path_zero (inv : Forest Kind coder forest pending) {path : List Nat}
    (leads : Path forest path 0) : path = [] := by
  cases leads with
  | root => rfl
  | child inContext member =>
      exact absurd rfl (inv.index_ne_zero (CodeTree.mem_indices_iff.mpr ⟨_, member⟩))

theorem path_lt (inv : Forest Kind coder forest pending) {path : List Nat} {index : Nat}
    (leads : Path forest path index) : index < coder.nextSymbol := by
  cases leads with
  | root => exact inv.rooted
  | child inContext member => exact inv.inside _ _ (CodeTree.mem_indices_iff.mpr ⟨_, member⟩)

/-- A symbol is in one context and has one value, so its path is one list. -/
theorem path_unique (inv : Forest Kind coder forest pending) {path : List Nat} :
    ∀ {path' : List Nat} {index : Nat}, Path forest path index → Path forest path' index →
    path = path' := by
  induction path with
  | nil =>
      intro path' index leads leads'
      cases leads with
      | root => exact (inv.path_zero leads').symm
  | cons value path ih =>
      intro path' index leads leads'
      cases leads with
      | @child _ context _ _ inContext member =>
          have inTree := CodeTree.mem_indices_iff.mpr ⟨_, member⟩
          cases leads' with
          | root => exact absurd rfl (inv.index_ne_zero inTree)
          | @child _ context' _ _ inContext' member' =>
              have inTree' := CodeTree.mem_indices_iff.mpr ⟨_, member'⟩
              obtain rfl := inv.apart _ _ _ inTree inTree'
              rw [ih inContext inContext',
                CodeTree.name_unique (inv.distinct context) member member']

/-- The parent of a symbol stands for the same values without the first of them. -/
theorem parent_path (inv : Forest Kind coder forest pending) {path : List Nat} {oldest index : Nat}
    (leads : Path forest (path ++ [oldest]) index) (settled : index ∉ pending) :
    Path forest path (coder.symbols index).parent := by
  cases path with
  | nil => exact inv.parents oldest [] index leads settled
  | cons value path =>
      have above := inv.parents value (path ++ [oldest]) index leads settled
      rw [← List.cons_append, List.dropLast_concat] at above
      exact above

end Forest

/-! ## Changes of one context -/

theorem Changes.sameContext {coder coder' : RangeCoder} {context other : Nat} {tree : CodeTree}
    (changes : Changes coder coder' context tree) (different : other ≠ context)
    (below : other < coder.nextSymbol) :
    (coder.symbols other).SameContext (coder'.symbols other) := by
  by_cases member : other ∈ tree.indices
  · exact changes.contexts other member
  · rw [changes.outside other member different below]
    exact CodeSymbol.SameContext.refl _

theorem Changes.sameParent {coder coder' : RangeCoder} {context other : Nat} {tree : CodeTree}
    (changes : Changes coder coder' context tree) (below : other < coder.nextSymbol) :
    (coder'.symbols other).parent = (coder.symbols other).parent := by
  by_cases here : other = context
  · rw [here]
    exact changes.parent
  · exact (changes.sameContext here below).parent

theorem Changes.sameNode {coder coder' : RangeCoder} {context other : Nat} {tree : CodeTree}
    (changes : Changes coder coder' context tree) (away : other ∉ tree.indices)
    (below : other < coder.nextSymbol) :
    (coder.symbols other).SameNode (coder'.symbols other) := by
  by_cases here : other = context
  · rw [here]
    exact changes.own
  · rw [changes.outside other away here below]
    exact CodeSymbol.SameNode.refl _

namespace Books

variable {coder coder' : RangeCoder} {context : Nat} {tree : CodeTree}

theorem congr (books : Books coder context tree)
    (escapes : (coder'.symbols context).escapes = (coder.symbols context).escapes)
    (total : (coder'.symbols context).total = (coder.symbols context).total) :
    Books coder' context tree where
  small := books.small
  total := by rw [total, escapes, books.total]
  bounded := by rw [total]; exact books.bounded
  escapes := by rw [escapes]; exact books.escapes

theorem ofSameContext (books : Books coder context tree)
    (same : (coder.symbols context).SameContext (coder'.symbols context)) :
    Books coder' context tree :=
  books.congr same.escapes same.total

/-- The numbers of a symbol that is no context yet. -/
theorem ofNew {value count : Nat} (notRoot : context ≠ 0)
    (new : (RangeCoder.newSymbol value count).SameContext (coder.symbols context)) :
    Books coder context .nil where
  small := fun entry member => absurd member List.not_mem_nil
  total := by
    rw [new.total, new.escapes, contextMinimum, if_neg notRoot]
    rfl
  bounded := by
    rw [new.total]
    exact Nat.zero_le _
  escapes := by
    rintro (filled | root)
    · exact absurd rfl filled
    · exact absurd root notRoot

end Books

namespace Forest

variable {Kind : CodeTree → Prop} {coder coder' : RangeCoder} {forest : Nat → CodeTree}
  {pending : List Nat} {context : Nat} {tree : CodeTree}

/-- The trees of the other contexts stay in the table. -/
theorem holds_of_changes (inv : Forest Kind coder forest pending)
    (changes : Changes coder coder' context (forest context)) {other : Nat}
    (different : other ≠ context) (below : other < coder.nextSymbol) :
    Holds coder'.symbols other (coder'.symbols other).symbols (forest other) := by
  rw [(changes.sameContext different below).symbols]
  refine (inv.holds other below).congr fun index member => ?_
  exact changes.sameNode (fun here => different (inv.apart other context index member here))
    (inv.inside other index member)

/-- Counting leaves the trees as they are, the counts apart. -/
theorem recount (kind : TreeKind Kind) (inv : Forest Kind coder forest pending)
    (below : context < coder.nextSymbol)
    (recounts : Recounts coder coder' context (forest context) tree) :
    Forest Kind coder' (Function.update forest context tree) pending := by
  have same : ∀ other, (Function.update forest context tree other).indices =
      (forest other).indices := by
    intro other
    by_cases here : other = context
    · subst here
      rw [Function.update_self]
      exact recounts.indices
    · rw [Function.update_of_ne here]
  refine ⟨?_, ?_, ?_, ?_, ?_, ?_, ?_, ?_, ?_, ?_⟩
  · rw [recounts.next]
    exact inv.rooted
  · rw [recounts.next]
    exact inv.room
  · intro other inUse
    rw [recounts.next] at inUse
    by_cases here : other = context
    · subst here
      rw [Function.update_self]
      exact recounts.holds
    · rw [Function.update_of_ne here]
      exact inv.holds_of_changes recounts.toChanges here inUse
  · intro other past
    rw [recounts.next] at past
    rw [Function.update_of_ne (by omega)]
    exact inv.beyond other past
  · intro other index member
    rw [same] at member
    rw [recounts.next]
    exact inv.inside other index member
  · intro other
    rw [same]
    exact inv.distinct other
  · intro other other' index member member'
    rw [same] at member member'
    exact inv.apart other other' index member member'
  · intro other
    by_cases here : other = context
    · subst here
      rw [Function.update_self]
      exact recounts.kept kind (inv.kept other)
    · rw [Function.update_of_ne here]
      exact inv.kept other
  · intro index inUse notRoot
    rw [recounts.next] at inUse
    obtain ⟨other, member⟩ := inv.covered index inUse notRoot
    exact ⟨other, by rw [same]; exact member⟩
  · intro value path index leads settled
    have names : ∀ other, (Function.update forest context tree other).names =
        (forest other).names := by
      intro other
      by_cases here : other = context
      · subst here
        rw [Function.update_self]
        exact recounts.names
      · rw [Function.update_of_ne here]
    have fewer : ∀ other, (Function.update forest context tree other).names ⊆
        (forest other).names := by
      intro other
      rw [names]
      exact List.Subset.refl _
    have more : ∀ other, (forest other).names ⊆
        (Function.update forest context tree other).names := by
      intro other
      rw [names]
      exact List.Subset.refl _
    have leads' := leads.mono fewer
    rw [recounts.sameParent (inv.path_lt leads')]
    exact (inv.parents value path index leads' settled).mono more

/-- The symbols whose parents are to be written after a value was coded in a context. -/
def pendingAfter (pending : List Nat) (context new : Nat) (found : Bool) : List Nat :=
  if found = true ∨ context = 0 then pending else new :: pending

theorem mem_pendingAfter {new index : Nat} {found : Bool} (waits : index ∈ pending) :
    index ∈ pendingAfter pending context new found := by
  unfold pendingAfter
  split
  · exact waits
  · exact List.mem_cons_of_mem _ waits

theorem pendingAfter_of_not_mem {new other : Nat} {found : Bool}
    (waits : other ∈ pendingAfter pending context new found) (settled : other ∉ pending) :
    other ∈ pendingAfter [] context new found := by
  unfold pendingAfter at waits ⊢
  split
  next found =>
      rw [if_pos found] at waits
      exact absurd waits settled
  next created =>
      rw [if_neg created] at waits
      rcases List.mem_cons.mp waits with rfl | old
      · exact List.mem_cons_self
      · exact absurd old settled

section Encode

variable {value update : Nat} {coded : CodedSymbol} {found : Bool}

theorem subset_update (grown : CodeTree.Grown value update coder.nextSymbol (forest context) tree
    coded found) (other : Nat) :
    (forest other).names ⊆ (Function.update forest context tree other).names := by
  by_cases here : other = context
  · subst here
    rw [Function.update_self]
    exact grown.names_subset
  · rw [Function.update_of_ne here]
    exact List.Subset.refl _

/-- What is new in the forest is the new symbol. -/
theorem of_mem_update (grown : CodeTree.Grown value update coder.nextSymbol (forest context) tree
    coded found) {other value' index : Nat}
    (member : (value', index) ∈ (Function.update forest context tree other).names) :
    (value', index) ∈ (forest other).names ∨
      other = context ∧ value' = value ∧ index = coder.nextSymbol ∧ found = false := by
  by_cases here : other = context
  · subst here
    rw [Function.update_self] at member
    rcases grown.mem_names member with old | new
    · exact .inl old
    · exact .inr ⟨rfl, new⟩
  · rw [Function.update_of_ne here] at member
    exact .inl member

theorem of_mem_indices_update (grown : CodeTree.Grown value update coder.nextSymbol
    (forest context) tree coded found) {other index : Nat}
    (member : index ∈ (Function.update forest context tree other).indices) :
    index ∈ (forest other).indices ∨
      other = context ∧ index = coder.nextSymbol ∧ found = false := by
  obtain ⟨value', named⟩ := CodeTree.mem_indices_iff.mp member
  rcases of_mem_update grown named with old | ⟨here, -, new⟩
  · exact .inl (CodeTree.mem_indices_iff.mpr ⟨value', old⟩)
  · exact .inr ⟨here, new⟩

/-- A symbol that was there before has the path that it had. -/
theorem path_of_update (inv : Forest Kind coder forest pending)
    (grown : CodeTree.Grown value update coder.nextSymbol (forest context) tree coded found)
    {path : List Nat} {index : Nat} (leads : Path (Function.update forest context tree) path index)
    (old : index < coder.nextSymbol) : Path forest path index := by
  induction leads with
  | root => exact .root
  | child inContext member ih =>
      rcases of_mem_update grown member with member | ⟨-, -, new, -⟩
      · exact .child (ih (inv.context_lt (CodeTree.mem_indices_iff.mpr ⟨_, member⟩))) member
      · exact absurd new (Nat.ne_of_lt old)

/-- **Counting a value in a context leaves a forest.** -/
theorem encode (inv : Forest Kind coder forest pending) (below : context < coder.nextSymbol)
    (room : coder.nextSymbol < rangeCoderSymbols) (kept : Kind tree)
    (grown : CodeTree.Grown value update coder.nextSymbol (forest context) tree coded found)
    (encodes : Encodes coder coder' context (forest context) tree found) :
    Forest Kind coder' (Function.update forest context tree)
      (pendingAfter pending context coder.nextSymbol found) := by
  have grows := encodes.nextSymbol_le
  have bound : coder'.nextSymbol ≤ coder.nextSymbol + 1 := by
    rw [encodes.next]
    split
    · exact Nat.le_succ _
    · exact Nat.le_refl _
  have new : found = false → coder'.nextSymbol = coder.nextSymbol + 1 := by
    rintro rfl
    exact encodes.next
  refine ⟨Nat.lt_of_lt_of_le inv.rooted grows, Nat.le_trans bound room, ?_, ?_, ?_, ?_, ?_, ?_,
    ?_, ?_⟩
  · intro other inUse
    by_cases here : other = context
    · subst here
      rw [Function.update_self]
      exact encodes.holds
    · rw [Function.update_of_ne here]
      by_cases last : other < coder.nextSymbol
      · exact inv.holds_of_changes encodes.toChanges here last
      · have absent := encodes.absent (by omega)
        obtain rfl : other = coder.nextSymbol := by omega
        rw [inv.beyond _ (Nat.le_refl _)]
        exact (encodes.created absent).symbols
  · intro other past
    rw [Function.update_of_ne (by omega)]
    exact inv.beyond other (Nat.le_trans grows past)
  · intro other index member
    rcases of_mem_indices_update grown member with member | ⟨-, rfl, absent⟩
    · exact Nat.lt_of_lt_of_le (inv.inside other index member) grows
    · rw [new absent]
      exact Nat.lt_succ_self _
  · intro other
    by_cases here : other = context
    · subst here
      rw [Function.update_self]
      exact grown.nodup (inv.distinct other)
        fun member => Nat.lt_irrefl _ (inv.inside other _ member)
    · rw [Function.update_of_ne here]
      exact inv.distinct other
  · intro other other' index member member'
    rcases of_mem_indices_update grown member with old | ⟨rfl, rfl, -⟩
    · rcases of_mem_indices_update grown member' with old' | ⟨rfl, rfl, -⟩
      · exact inv.apart other other' index old old'
      · exact absurd (inv.inside other _ old) (Nat.lt_irrefl _)
    · rcases of_mem_indices_update grown member' with old' | ⟨rfl, -, -⟩
      · exact absurd (inv.inside other' _ old') (Nat.lt_irrefl _)
      · rfl
  · intro other
    by_cases here : other = context
    · subst here
      rw [Function.update_self]
      exact kept
    · rw [Function.update_of_ne here]
      exact inv.kept other
  · intro index inUse notRoot
    by_cases old : index < coder.nextSymbol
    · obtain ⟨other, member⟩ := inv.covered index old notRoot
      obtain ⟨value', named⟩ := CodeTree.mem_indices_iff.mp member
      exact ⟨other, CodeTree.mem_indices_iff.mpr ⟨value', subset_update grown other named⟩⟩
    · have absent := encodes.absent (by omega)
      have symbol := grown.symbol_mem
      subst absent
      obtain rfl : index = coder.nextSymbol := by omega
      rw [grown.of_absent.1] at symbol
      refine ⟨context, ?_⟩
      rw [Function.update_self]
      exact CodeTree.mem_indices_iff.mpr ⟨value, symbol⟩
  · intro value' path index leads settled
    by_cases old : index < coder.nextSymbol
    · rw [encodes.sameParent old]
      exact (inv.parents value' path index (inv.path_of_update grown leads old)
        fun waits => settled (mem_pendingAfter waits)).mono (subset_update grown)
    · cases leads with
      | @child _ context' _ _ inContext member =>
          rcases of_mem_update grown member with member | ⟨rfl, rfl, rfl, absent⟩
          · exact absurd (inv.inside _ _ (CodeTree.mem_indices_iff.mpr ⟨_, member⟩)) old
          · -- a new symbol of a subcontext waits, and one of the root has the root as parent
            by_cases root : context' = 0
            · subst root
              obtain rfl := inv.path_zero (inv.path_of_update grown inContext below)
              rw [(encodes.created absent).parent]
              exact .root
            · refine absurd ?_ settled
              unfold pendingAfter
              rw [if_neg (by simp [absent, root])]
              exact List.mem_cons_self

end Encode

/-! ## Parents -/

/-- The trees do not depend on the prediction. -/
theorem predict (inv : Forest Kind coder forest pending) (predicted : Nat) :
    Forest Kind { coder with predicted := predicted } forest pending :=
  ⟨inv.rooted, inv.room, inv.holds, inv.beyond, inv.inside, inv.distinct, inv.apart, inv.kept,
    inv.covered, inv.parents⟩

theorem weaken {pending' : List Nat} (inv : Forest Kind coder forest pending)
    (more : ∀ other ∈ pending, other ∈ pending') : Forest Kind coder forest pending' :=
  ⟨inv.rooted, inv.room, inv.holds, inv.beyond, inv.inside, inv.distinct, inv.apart, inv.kept,
    inv.covered, fun value path index leads settled =>
      inv.parents value path index leads fun waits => settled (more index waits)⟩

/-- A parent that is written is pending no more. -/
theorem setParent {pending' path : List Nat} {value index parent : Nat}
    (inv : Forest Kind coder forest pending) (leads : Path forest (value :: path) index)
    (above : Path forest (value :: path).dropLast parent)
    (rest : ∀ other ∈ pending, other ≠ index → other ∈ pending') :
    Forest Kind (coder.write index (·.setParent parent)) forest pending' := by
  have same : ∀ other, other ≠ index →
      (coder.write index (·.setParent parent)).symbols other = coder.symbols other :=
    fun other different => RangeCoder.write_of_ne different
  have nodes : ∀ other, (coder.symbols other).SameNode
      ((coder.write index (·.setParent parent)).symbols other) := by
    intro other
    by_cases here : other = index
    · subst here
      rw [RangeCoder.write_self]
      exact ⟨rfl, rfl, rfl, rfl, rfl⟩
    · rw [same other here]
      exact CodeSymbol.SameNode.refl _
  refine ⟨inv.rooted, inv.room, ?_, inv.beyond, inv.inside, inv.distinct, inv.apart, inv.kept,
    inv.covered, ?_⟩
  · intro other below
    have linked : ((coder.write index (·.setParent parent)).symbols other).symbols =
        (coder.symbols other).symbols := by
      by_cases here : other = index
      · subst here
        rw [RangeCoder.write_self]
        rfl
      · rw [same other here]
    rw [linked]
    exact (inv.holds other below).congr fun index _ => nodes index
  · intro value' path' other leads' settled
    by_cases here : other = index
    · subst here
      rw [← inv.path_unique leads leads', RangeCoder.write_self]
      exact above
    · rw [same other here]
      exact inv.parents value' path' other leads' fun waits => settled (rest other waits here)

end Forest

end Enet
