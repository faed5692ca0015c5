import Mathlib.Algebra.BigOperators.Ring.Finset
import Mathlib.Algebra.Order.BigOperators.Group.Finset
import Mathlib.Data.List.Induction
import Enet.Compress.Forest
import Enet.Library.Shares

/-!
# What a context has counted

The coder is an adaptive model of order two: each context has counted the values
that came after it, and how often such a value was new. Here a context is named
by its values, the last one first, and what it has counted is a function; trees,
links and parents are left behind. The table of the coder keeps these numbers.
-/

set_option autoImplicit false

namespace Enet

open Library (Share)

/-! ## The counts of a tree -/

namespace CodeTree

/-- The count of a value in a list of symbols. -/
def countIn (entries : List CodeEntry) (value : Nat) : Nat :=
  (entries.map fun entry => if entry.value = value then entry.count else 0).sum

/-- The count of a value in a tree. -/
def countOf (tree : CodeTree) (value : Nat) : Nat := countIn tree.entries value

theorem countIn_cons (entry : CodeEntry) (entries : List CodeEntry) (value : Nat) :
    countIn (entry :: entries) value =
      (if entry.value = value then entry.count else 0) + countIn entries value := rfl

theorem countIn_append (before after : List CodeEntry) (value : Nat) :
    countIn (before ++ after) value = countIn before value + countIn after value := by
  unfold countIn
  rw [List.map_append, List.sum_append]

theorem countIn_eq_zero {entries : List CodeEntry} {value : Nat}
    (away : ∀ entry ∈ entries, entry.value ≠ value) : countIn entries value = 0 := by
  induction entries with
  | nil => rfl
  | cons entry entries ih =>
      rw [countIn_cons, if_neg (away entry List.mem_cons_self),
        ih fun other member => away other (List.mem_cons_of_mem _ member)]

/-- The counts of the values below a bound are those of the symbols below it. -/
theorem sum_countIn (entries : List CodeEntry) (bound : Nat) :
    ∑ value ∈ Finset.range bound, countIn entries value =
      (entries.map fun entry => if entry.value < bound then entry.count else 0).sum := by
  induction entries with
  | nil => simp [countIn]
  | cons entry entries ih =>
      simp only [countIn_cons, Finset.sum_add_distrib, ih, List.map_cons, List.sum_cons]
      rw [Finset.sum_ite_eq]
      simp

theorem sum_countIn_of_lt {entries : List CodeEntry} {bound : Nat}
    (below : ∀ entry ∈ entries, entry.value < bound) :
    ∑ value ∈ Finset.range bound, countIn entries value =
      (entries.map CodeEntry.count).sum := by
  rw [sum_countIn]
  congr 1
  refine List.map_congr_left fun entry member => ?_
  rw [if_pos (below entry member)]

theorem sum_countIn_of_le {entries : List CodeEntry} {bound : Nat}
    (above : ∀ entry ∈ entries, bound ≤ entry.value) :
    ∑ value ∈ Finset.range bound, countIn entries value = 0 := by
  refine Finset.sum_eq_zero fun value member => countIn_eq_zero fun entry inList => ?_
  have := above entry inList
  have := Finset.mem_range.mp member
  omega

/-- The counts of all bytes are the weight. -/
theorem sum_countOf {tree : CodeTree} (bytes : ∀ entry ∈ tree.entries, entry.value < 256) :
    ∑ value ∈ Finset.range 256, tree.countOf value = tree.weight :=
  sum_countIn_of_lt bytes

/-- A value has a count where it has a symbol. -/
theorem countOf_pos_iff {tree : CodeTree} {value : Nat}
    (counted : ∀ entry ∈ tree.entries, 0 < entry.count) :
    0 < tree.countOf value ↔ ∃ index, (value, index) ∈ tree.names := by
  unfold countOf countIn names
  constructor
  · intro positive
    obtain ⟨count, member, notZero⟩ := List.exists_mem_ne_zero_of_sum_ne_zero
      (Nat.ne_of_gt positive)
    obtain ⟨entry, inTree, rfl⟩ := List.mem_map.mp member
    have same : entry.value = value := by
      by_contra different
      exact notZero (if_neg different)
    subst same
    exact ⟨entry.index, List.mem_map_of_mem inTree⟩
  · rintro ⟨index, member⟩
    obtain ⟨entry, inTree, same⟩ := List.mem_map.mp member
    obtain ⟨rfl, rfl⟩ := Prod.mk.inj same
    have single := List.single_le_sum (fun _ _ => Nat.zero_le _) _ (List.mem_map_of_mem
      (f := fun other => if other.value = entry.value then other.count else 0) inTree)
    rw [if_pos rfl] at single
    exact Nat.lt_of_lt_of_le (counted entry inTree) single

/-- What halving does to the counts of a tree in which no value has two symbols. -/
theorem countOf_halve {tree : CodeTree} (ascends : tree.values.Pairwise (· < ·)) (value : Nat) :
    tree.halve.countOf value = tree.countOf value - tree.countOf value / 2 := by
  unfold countOf
  rw [halve_entries]
  unfold values at ascends
  generalize tree.entries = entries at ascends
  induction entries with
  | nil => simp [countIn]
  | cons entry entries ih =>
      rw [List.map_cons, List.pairwise_cons] at ascends
      rw [List.map_cons, countIn_cons, countIn_cons, ih ascends.2]
      dsimp only
      split
      next same =>
          have others : countIn entries value = 0 := by
            refine countIn_eq_zero fun other member => ?_
            have := ascends.1 other.value (List.mem_map_of_mem member)
            omega
          rw [others]
          omega
      next => omega

theorem Grown.countOf {value update new : Nat} {tree tree' : CodeTree} {coded : CodedSymbol}
    {found : Bool} (grown : Grown value update new tree tree' coded found) (other : Nat) :
    tree'.countOf other = tree.countOf other + if value = other then update else 0 := by
  unfold CodeTree.countOf
  cases grown with
  | found before after entry split same grown =>
      subst same
      rw [split, grown, countIn_append, countIn_append, countIn_cons, countIn_cons]
      dsimp only
      split <;> omega
  | created before after split grown =>
      rw [split, grown, countIn_append, countIn_append, countIn_cons]
      dsimp only
      omega

/-- In an ascending tree what comes under a value are the counts below it. -/
theorem Grown.located {value update new : Nat} {tree tree' : CodeTree} {coded : CodedSymbol}
    {found : Bool} (grown : Grown value update new tree tree' coded found)
    (ascends : tree'.values.Pairwise (· < ·)) :
    coded.count = tree.countOf value ∧
      coded.under = ∑ other ∈ Finset.range value, tree.countOf other := by
  have sums : ∀ (before after : List CodeEntry), (∀ entry ∈ before, entry.value < value) →
      (∀ entry ∈ after, value ≤ entry.value) →
      (before.map CodeEntry.count).sum =
        ∑ other ∈ Finset.range value, countIn (before ++ after) other := by
    intro before after below above
    simp only [countIn_append, Finset.sum_add_distrib]
    rw [sum_countIn_of_lt below, sum_countIn_of_le above, Nat.add_zero]
  unfold CodeTree.countOf
  unfold values at ascends
  cases grown with
  | found before after entry split same grown =>
      subst same
      rw [grown, List.map_append, List.map_cons, List.pairwise_append, List.pairwise_cons]
        at ascends
      obtain ⟨-, ⟨above, -⟩, below⟩ := ascends
      have below : ∀ other ∈ before, other.value < entry.value := fun other member =>
        below other.value (List.mem_map_of_mem member) entry.value List.mem_cons_self
      have above : ∀ other ∈ after, entry.value < other.value := fun other member =>
        above other.value (List.mem_map_of_mem member)
      rw [split]
      refine ⟨?_, sums before (entry :: after) below ?_⟩
      · rw [countIn_append, countIn_cons, if_pos rfl,
          countIn_eq_zero fun other member => Nat.ne_of_lt (below other member),
          countIn_eq_zero fun other member => Nat.ne_of_gt (above other member)]
        exact (Nat.zero_add _).symm
      · intro other member
        rcases List.mem_cons.mp member with rfl | member
        · exact Nat.le_refl _
        · exact Nat.le_of_lt (above other member)
  | created before after split grown =>
      rw [grown, List.map_append, List.map_cons, List.pairwise_append, List.pairwise_cons]
        at ascends
      obtain ⟨-, ⟨above, -⟩, below⟩ := ascends
      have below : ∀ other ∈ before, other.value < value := fun other member =>
        below other.value (List.mem_map_of_mem member) value List.mem_cons_self
      have above : ∀ other ∈ after, value < other.value := fun other member =>
        above other.value (List.mem_map_of_mem member)
      rw [split]
      refine ⟨?_, sums before after below fun other member => Nat.le_of_lt (above other member)⟩
      rw [countIn_append, countIn_eq_zero fun other member => Nat.ne_of_lt (below other member),
        countIn_eq_zero fun other member => Nat.ne_of_gt (above other member)]

end CodeTree

/-! ## Tallies -/

/-- What a context has counted: each value, and how often a value was new. -/
@[ext] structure Tally where
  counts : Nat → Nat
  escapes : Nat

/-- The count that each value has at least: one in the root, so that every value can be
coded there. -/
def leastCount (path : List Nat) : Nat := if path = [] then contextSymbolMinimum else 0

/-- What a value counts. -/
def countDelta (path : List Nat) : Nat :=
  if path = [] then contextSymbolDelta else subcontextSymbolDelta

namespace Tally

/-- A context that has counted nothing. -/
def blank : Tally := ⟨fun _ => 0, 0⟩

/-- What comes under a value. -/
def below (tally : Tally) (least value : Nat) : Nat :=
  ∑ other ∈ Finset.range value, (tally.counts other + least)

/-- The escapes and the counts of all bytes. -/
def total (tally : Tally) (least : Nat) : Nat := tally.escapes + tally.below least 256

/-- The share of a value. -/
def share (tally : Tally) (path : List Nat) (value : Nat) : Share where
  under := tally.escapes + tally.below (leastCount path) value
  count := leastCount path + tally.counts value
  total := tally.total (leastCount path)

/-- The share of an escape: none where there was no escape, or nothing else. -/
def escapeShare (tally : Tally) : List Share :=
  if 0 < tally.escapes ∧ tally.escapes < tally.total 0 then
    [⟨0, tally.escapes, tally.total 0⟩]
  else []

/-- All counts halved. -/
def halve (tally : Tally) : Tally where
  counts := fun value => tally.counts value - tally.counts value / 2
  escapes := tally.escapes - tally.escapes / 2

/-- A value and escapes counted, and then all counts halved or not. -/
def count (tally : Tally) (value delta escape : Nat) (rescaled : Bool) : Tally :=
  let counted : Tally :=
    ⟨fun other => tally.counts other + if value = other then delta else 0,
      tally.escapes + escape⟩
  if rescaled then counted.halve else counted

/-- The escape that is counted in a context where a value was new: none in the root. -/
def escape (tally : Tally) (path : List Nat) (value : Nat) : Nat :=
  if path = [] then 0 else RangeCoder.escapeDelta (tally.counts value)

/-- A value counted in a context. All counts are halved where that of the value or the total
has grown too far. -/
def learn (path : List Nat) (value : Nat) (tally : Tally) : Tally :=
  tally.count value (countDelta path) (tally.escape path value)
    (RangeCoder.needsRescale (leastCount path + tally.counts value)
      (tally.total (leastCount path) + tally.escape path value + countDelta path)
      (0xFF - 2 * countDelta path + leastCount path))

end Tally

/-! ## A model of contexts -/

/-- The contexts of the last values, from the longest to the root. -/
def contextsOf (recent : List Nat) : List (List Nat) := recent.inits.reverse

theorem contextsOf_concat (path : List Nat) (oldest : Nat) :
    contextsOf (path ++ [oldest]) = (path ++ [oldest]) :: contextsOf path := by
  unfold contextsOf
  rw [List.inits_append, List.reverse_append]
  rfl

theorem mem_contextsOf {path recent : List Nat} : path ∈ contextsOf recent ↔ path <+: recent := by
  unfold contextsOf
  rw [List.mem_reverse, List.mem_inits]

/-- A context is longer than those behind it. -/
theorem not_mem_contextsOf (path : List Nat) (oldest : Nat) :
    path ++ [oldest] ∉ contextsOf path := by
  intro member
  have short := (mem_contextsOf.mp member).length_le
  rw [List.length_append, List.length_singleton] at short
  omega

/-- The contexts of `path ++ older` that are longer than `path`. -/
def contextsAbove (path older : List Nat) : List (List Nat) :=
  (contextsOf (path ++ older)).take older.length

theorem contextsAbove_concat (path older : List Nat) (oldest : Nat) :
    contextsAbove path (older ++ [oldest]) =
      (path ++ older ++ [oldest]) :: contextsAbove path older := by
  unfold contextsAbove
  rw [← List.append_assoc, contextsOf_concat, List.length_append, List.length_singleton,
    List.take_succ_cons]

/-- They are the prefixes of a certain length. -/
theorem length_of_mem_contextsAbove (path older : List Nat) :
    ∀ other ∈ contextsAbove path older,
      other <+: path ++ older ∧ path.length < other.length := by
  induction older using List.reverseRecOn with
  | nil => exact fun other member => absurd member List.not_mem_nil
  | append_singleton older oldest ih =>
      intro other member
      rw [contextsAbove_concat] at member
      rw [← List.append_assoc]
      rcases List.mem_cons.mp member with rfl | member
      · refine ⟨List.prefix_refl _, ?_⟩
        simp only [List.length_append, List.length_singleton]
        omega
      · obtain ⟨within, longer⟩ := ih other member
        exact ⟨within.trans (List.prefix_append _ _), longer⟩

theorem not_mem_contextsAbove (path older : List Nat) : path ∉ contextsAbove path older :=
  fun member => Nat.lt_irrefl _ (length_of_mem_contextsAbove path older path member).2

theorem not_mem_contextsAbove_concat (path older : List Nat) (oldest : Nat) :
    path ++ older ++ [oldest] ∉ contextsAbove path older := by
  intro member
  have short := (length_of_mem_contextsAbove path older _ member).1.length_le
  rw [List.length_append, List.length_singleton] at short
  omega

/-- What each context has counted. -/
abbrev ContextModel : Type := List Nat → Tally

namespace ContextModel

/-- The contexts in which a value is counted: those where it is new, and the first where
it is not. -/
def visits (model : ContextModel) (value : Nat) : List (List Nat) → List (List Nat)
  | [] => []
  | path :: rest =>
    if 0 < (model path).counts value then [path] else path :: model.visits value rest

/-- The shares with which a value is coded: escapes from the contexts where it is new, and
its own in the first where it is not. -/
def shares (model : ContextModel) (value : Nat) : List (List Nat) → List Share
  | [] => []
  | path :: rest =>
    if path = [] ∨ 0 < (model path).counts value then [(model path).share path value]
    else (model path).escapeShare ++ model.shares value rest

/-- A value counted in some contexts. -/
def learn (model : ContextModel) (value : Nat) (visited : List (List Nat)) : ContextModel :=
  fun path => if path ∈ visited then (model path).learn path value else model path

/-- How many of the contexts in which a value is counted get a new symbol. -/
def created (model : ContextModel) (value : Nat) (paths : List (List Nat)) : Nat :=
  (model.visits value paths).countP fun path => (model path).counts value = 0

variable {model model' : ContextModel} {value : Nat} {path : List Nat} {rest : List (List Nat)}

theorem visits_of_pos (found : 0 < (model path).counts value) :
    model.visits value (path :: rest) = [path] := if_pos found

theorem visits_of_zero (absent : (model path).counts value = 0) :
    model.visits value (path :: rest) = path :: model.visits value rest :=
  if_neg (Nat.not_lt.mpr (Nat.le_of_eq absent))

theorem visits_subset (paths : List (List Nat)) : model.visits value paths ⊆ paths := by
  induction paths with
  | nil => exact List.Subset.refl _
  | cons path rest ih =>
      unfold visits
      split
      · exact List.cons_subset_cons _ (List.nil_subset _)
      · exact List.cons_subset_cons _ ih

theorem created_of_pos (found : 0 < (model path).counts value) :
    model.created value (path :: rest) = 0 := by
  unfold created
  rw [visits_of_pos found, List.countP_singleton, if_neg]
  simpa using Nat.ne_of_gt found

theorem created_of_zero (absent : (model path).counts value = 0) :
    model.created value (path :: rest) = model.created value rest + 1 := by
  unfold created
  rw [visits_of_zero absent, List.countP_cons_of_pos (by simpa using absent)]

section Congr

variable {paths : List (List Nat)} (same : ∀ path ∈ paths, model' path = model path)
include same

theorem visits_congr : model'.visits value paths = model.visits value paths := by
  induction paths with
  | nil => rfl
  | cons path rest ih =>
      unfold visits
      rw [same path List.mem_cons_self, ih fun other member =>
        same other (List.mem_cons_of_mem _ member)]

theorem shares_congr : model'.shares value paths = model.shares value paths := by
  induction paths with
  | nil => rfl
  | cons path rest ih =>
      unfold shares
      rw [same path List.mem_cons_self, ih fun other member =>
        same other (List.mem_cons_of_mem _ member)]

theorem created_congr : model'.created value paths = model.created value paths := by
  unfold created
  rw [visits_congr same]
  refine List.countP_congr fun path member => ?_
  rw [same path (visits_subset paths member)]

end Congr

theorem learn_self : model.learn value [path] path = (model path).learn path value :=
  if_pos List.mem_cons_self

theorem learn_of_not_mem {visited : List (List Nat)} (away : path ∉ visited) :
    model.learn value visited path = model path := if_neg away

theorem learn_nil : model.learn value [] = model :=
  funext fun _ => if_neg List.not_mem_nil

/-- Counting in one context changes nothing for the others. -/
theorem countP_learn {contexts : List (List Nat)} (away : path ∉ contexts) :
    contexts.countP (fun other => ((model.learn value [path]) other).counts value = 0) =
      contexts.countP fun other => (model other).counts value = 0 := by
  refine List.countP_congr fun other member => ?_
  rw [learn_of_not_mem]
  intro alone
  obtain rfl := List.mem_singleton.mp alone
  exact away member

/-- In which order contexts are counted in does not matter. -/
theorem learn_congr {visited visited' : List (List Nat)}
    (same : ∀ path, path ∈ visited ↔ path ∈ visited') :
    model.learn value visited = model.learn value visited' :=
  funext fun path => if_congr (same path) rfl rfl

/-- A value that is new in the contexts above one is counted in these and there. -/
theorem visits_above (path older : List Nat)
    (absent : ∀ other ∈ contextsAbove path older, (model other).counts value = 0)
    (found : path = [] ∨ 0 < (model path).counts value) :
    model.visits value (contextsOf (path ++ older)) = contextsAbove path older ++ [path] := by
  induction older using List.reverseRecOn with
  | nil =>
      rw [List.append_nil]
      rcases List.eq_nil_or_concat path with rfl | ⟨rest, oldest, rfl⟩
      · change model.visits value [[]] = [[]]
        unfold visits visits
        split <;> rfl
      · rw [List.concat_eq_append] at found ⊢
        rw [contextsOf_concat, visits_of_pos (found.resolve_left (by simp))]
        rfl
  | append_singleton older oldest ih =>
      rw [contextsAbove_concat] at absent ⊢
      rw [← List.append_assoc, contextsOf_concat,
        visits_of_zero (absent _ List.mem_cons_self),
        ih fun other member => absent other (List.mem_cons_of_mem _ member)]
      rfl

/-- Contexts are counted in one after the other. -/
theorem learn_cons (away : path ∉ rest) :
    (model.learn value [path]).learn value rest = model.learn value (path :: rest) := by
  funext other
  by_cases here : other = path
  · subst here
    rw [learn_of_not_mem away, learn_self]
    exact (if_pos List.mem_cons_self).symm
  · have alone : other ∉ [path] := by simpa using here
    unfold learn
    rw [if_neg alone]
    refine if_congr ?_ rfl rfl
    simp [here]

end ContextModel

/-! ## The state of the model -/

/-- What the coder has learned between two bytes: the counts of the contexts, the last values,
the last one first, and how many symbols it has used. -/
structure ContextState where
  model : ContextModel
  recent : List Nat
  used : Nat

namespace ContextState

/-- Nothing but the root, with its escape. -/
def start : ContextState where
  model := fun path => if path = [] then ⟨fun _ => 0, contextEscapeMinimum⟩ else .blank
  recent := []
  used := 1

/-- The shares with which a value is coded. -/
def shares (state : ContextState) (value : Nat) : List Share :=
  state.model.shares value (contextsOf state.recent)

/-- A value is learned, or all is forgotten where the table could be too small for the next. -/
def step (state : ContextState) (value : Nat) : ContextState :=
  let used := state.used + state.model.created value (contextsOf state.recent)
  if rangeCoderSymbols ≤ used + subcontextOrder then start
  else
    { model := state.model.learn value (state.model.visits value (contextsOf state.recent))
      recent := (value :: state.recent).take subcontextOrder
      used := used }

end ContextState

/-! ## The model in the table -/

/-- What the table has counted in a context. -/
def RangeCoder.tally (coder : RangeCoder) (forest : Nat → CodeTree) (context : Nat) : Tally :=
  ⟨(forest context).countOf, (coder.symbols context).escapes⟩

/-- The table has counted what the model has: nothing where it has no context. -/
structure Tallied (coder : RangeCoder) (forest : Nat → CodeTree) (model : ContextModel) : Prop where
  known : ∀ {path : List Nat} {context : Nat}, Path forest path context →
    model path = coder.tally forest context
  unknown : ∀ path, (∀ context, ¬ Path forest path context) → model path = .blank

namespace Forest

variable {Kind : CodeTree → Prop} {coder : RangeCoder} {forest : Nat → CodeTree}
  {pending : List Nat}

theorem path_nil_iff (inv : Forest Kind coder forest pending) {path : List Nat} {context : Nat}
    (leads : Path forest path context) : path = [] ↔ context = 0 := by
  constructor
  · rintro rfl
    cases leads with
    | root => rfl
  · rintro rfl
    exact inv.path_zero leads

/-- Where the values of a tree ascend, values lead to one symbol. -/
theorem index_unique (ascends : ∀ context, (forest context).values.Pairwise (· < ·))
    {path : List Nat} : ∀ {index index' : Nat}, Path forest path index →
    Path forest path index' → index = index' := by
  induction path with
  | nil =>
      intro index index' leads leads'
      cases leads with
      | root => cases leads' with | root => rfl
  | cons value path ih =>
      intro index index' leads leads'
      cases leads with
      | @child _ context _ _ inContext member =>
          cases leads' with
          | child inContext' member' =>
              obtain rfl := ih inContext inContext'
              unfold CodeTree.names at member member'
              obtain ⟨entry, inTree, same⟩ := List.mem_map.mp member
              obtain ⟨entry', inTree', same'⟩ := List.mem_map.mp member'
              obtain ⟨rfl, rfl⟩ := Prod.mk.inj same
              obtain ⟨value, rfl⟩ := Prod.mk.inj same'
              have distinct : ((forest context).entries.map CodeEntry.value).Nodup :=
                (ascends context).imp Nat.ne_of_lt
              rw [List.inj_on_of_nodup_map distinct inTree inTree' value.symm]

end Forest

/-- The old count of a value in the model is that in the tree. -/
theorem Tallied.count {coder : RangeCoder} {forest : Nat → CodeTree} {model : ContextModel}
    {path : List Nat} {context value update new : Nat} {tree' : CodeTree} {coded : CodedSymbol}
    {found : Bool} (tallied : Tallied coder forest model) (leads : Path forest path context)
    (grown : CodeTree.Grown value update new (forest context) tree' coded found)
    (ascends : tree'.values.Pairwise (· < ·)) : (model path).counts value = coded.count := by
  rw [tallied.known leads]
  exact (grown.located ascends).1.symm

/-- What has been counted does not depend on values, links and parents. -/
theorem Tallied.congr {coder coder' : RangeCoder} {forest : Nat → CodeTree}
    {model : ContextModel} (tallied : Tallied coder forest model)
    (escapes : ∀ other, (coder'.symbols other).escapes = (coder.symbols other).escapes) :
    Tallied coder' forest model := by
  refine ⟨fun leads => ?_, tallied.unknown⟩
  unfold RangeCoder.tally
  rw [escapes]
  exact tallied.known leads

/-- The escapes and the counts of a context make up its total. -/
theorem Books.total_eq {coder : RangeCoder} {forest : Nat → CodeTree} {context least : Nat}
    (books : Books coder context (forest context)) (sound : Sound (forest context))
    (minimum : contextMinimum context = least) :
    (coder.tally forest context).total least = (coder.symbols context).total := by
  rw [books.total, minimum]
  unfold RangeCoder.tally Tally.total Tally.below
  dsimp only
  rw [Finset.sum_add_distrib, CodeTree.sum_countOf sound.bytes, Finset.sum_const,
    Finset.card_range, nsmul_eq_mul, Nat.cast_id, Nat.add_assoc]

end Enet
