import Mathlib.Data.List.Nodup

namespace EchoKernel.Rbtree

open List

/-!
# Red-black trees

The trees of `lib/rbtree.c`. A position is a subtree with the links up to the
root, which stand for the parent pointers. Rebalancing walks along these links
and keeps the in-order sequence.
-/

/-- The colour of a node. -/
inductive RbColor where
  | red
  | black
  deriving Repr, DecidableEq

/-- A red-black tree. -/
inductive RbTree (α : Type) where
  | null
  | node (color : RbColor) (left : RbTree α) (entry : α) (right : RbTree α)
  deriving Repr, DecidableEq

/-- A parent, seen from its left or from its right child. -/
inductive RbLink (α : Type) where
  | left (color : RbColor) (entry : α) (right : RbTree α)
  | right (color : RbColor) (left : RbTree α) (entry : α)
  deriving Repr, DecidableEq

variable {α : Type}

namespace RbTree

/-- The entries in order. -/
def toList : RbTree α → List α
  | .null => []
  | .node _ left entry right => left.toList ++ entry :: right.toList

def isRed : RbTree α → Bool
  | .node .red _ _ _ => true
  | _ => false

/-- Colour the node, if there is one. -/
def setColor (color : RbColor) : RbTree α → RbTree α
  | .null => .null
  | .node _ left entry right => .node color left entry right

@[simp] theorem toList_null : (RbTree.null : RbTree α).toList = [] := rfl

@[simp] theorem toList_node
    (color : RbColor)
    (left : RbTree α)
    (entry : α)
    (right : RbTree α) :
    (RbTree.node color left entry right).toList = left.toList ++ entry :: right.toList :=
  rfl

@[simp] theorem toList_setColor
    (color : RbColor)
    (tree : RbTree α) :
    (tree.setColor color).toList = tree.toList := by
  cases tree <;> rfl

end RbTree

/-- The whole tree around a subtree. -/
def rebuild (tree : RbTree α) : List (RbLink α) → RbTree α
  | [] => tree
  | .left color entry right :: up => rebuild (.node color tree entry right) up
  | .right color left entry :: up => rebuild (.node color left entry tree) up

def entriesBefore : List (RbLink α) → List α
  | [] => []
  | .left _ _ _ :: up => entriesBefore up
  | .right _ left entry :: up => entriesBefore up ++ left.toList ++ [entry]

def entriesAfter : List (RbLink α) → List α
  | [] => []
  | .left _ entry right :: up => entry :: right.toList ++ entriesAfter up
  | .right _ _ _ :: up => entriesAfter up

/--
`__rb_insert` at a red node with the given subtrees. A red root is never a
parent of a red node, so the last two cases do not occur.
-/
def rbInsert (left : RbTree α) (entry : α) (right : RbTree α) : List (RbLink α) → RbTree α
  | [] => .node .black left entry right
  | .left .black p sibling :: up =>
    rebuild (.node .black (.node .red left entry right) p sibling) up
  | .right .black sibling p :: up =>
    rebuild (.node .black sibling p (.node .red left entry right)) up
  | .left .red p sibling :: .left color g uncle :: up =>
    if uncle.isRed then
      -- case 1: color flips
      rbInsert (.node .black (.node .red left entry right) p sibling) g (uncle.setColor .black) up
    else
      -- case 3: right rotate at gparent
      rebuild (.node color (.node .red left entry right) p
          (.node .red (sibling.setColor .black) g uncle)) up
  | .right .red sibling p :: .left color g uncle :: up =>
    if uncle.isRed then
      rbInsert (.node .black sibling p (.node .red left entry right)) g (uncle.setColor .black) up
    else
      -- case 2: left rotate at parent, then case 3
      rebuild (.node color (.node .red sibling p (left.setColor .black)) entry
          (.node .red (right.setColor .black) g uncle)) up
  | .right .red sibling p :: .right color uncle g :: up =>
    if uncle.isRed then
      rbInsert (uncle.setColor .black) g (.node .black sibling p (.node .red left entry right)) up
    else
      rebuild (.node color (.node .red uncle g (sibling.setColor .black)) p
          (.node .red left entry right)) up
  | .left .red p sibling :: .right color uncle g :: up =>
    if uncle.isRed then
      rbInsert (uncle.setColor .black) g (.node .black (.node .red left entry right) p sibling) up
    else
      rebuild (.node color (.node .red uncle g (left.setColor .black)) entry
          (.node .red (right.setColor .black) p sibling)) up
  | [.left .red p sibling] => .node .red (.node .red left entry right) p sibling
  | [.right .red sibling p] => .node .red sibling p (.node .red left entry right)

section
variable (node : RbTree α) (color : RbColor) (entry : α) (links : List (RbLink α)) (p : α)

/-- `rb_link_node` at a leaf position, then `rb_insert_color`. -/
def rbInsertColor : RbTree α := rbInsert .null entry .null links

/--
One round of `____rb_erase_color` at a left child with a black sibling: the
parent's subtree, and whether the walk ends here. The C code reads the sibling
without a test, since equal black heights leave one; without a sibling the round
here ends and the subtree stays as it is.
-/
def eraseColorLeft : RbTree α → RbTree α × Bool
  | .null => (.node color node p .null, true)
  | .node _ left s right =>
    if right.isRed then
      -- case 4: left rotate at parent and color flips
      (.node color (.node .black node p left) s (right.setColor .black), true)
    else
      match left with
      | .node .red inner x outer =>
        -- case 3: right rotate at sibling, then case 4
        (.node color (.node .black node p inner) x
          (.node .black (outer.setColor .black) s right), true)
      | left =>
        -- case 2: sibling color flip
        match color with
        | .red => (.node .black node p (.node .red left s right), true)
        | .black => (.node .black node p (.node .red left s right), false)

/-- The same round at a right child; here too a missing sibling ends it. -/
def eraseColorRight : RbTree α → RbTree α × Bool
  | .null => (.node color .null p node, true)
  | .node _ left s right =>
    if left.isRed then (.node color (left.setColor .black) s (.node .black right p node), true)
    else
      match right with
      | .node .red outer x inner =>
        (.node color (.node .black left s (outer.setColor .black)) x
          (.node .black inner p node), true)
      | right =>
        match color with
        | .red => (.node .black (.node .red left s right) p node, true)
        | .black => (.node .black (.node .red left s right) p node, false)

/-- `____rb_erase_color`. After case 1 the parent is red, so the next round is the last one. -/
def rbEraseColor (node : RbTree α) : List (RbLink α) → RbTree α
  | [] => node
  | .left color p (.node .red left s right) :: up =>
    -- case 1: left rotate at parent
    rebuild (eraseColorLeft node .red p (left.setColor .black)).1 (.left color s right :: up)
  | .left color p sibling :: up =>
    match eraseColorLeft node color p sibling with
    | (tree, true) => rebuild tree up
    | (tree, false) => rbEraseColor tree up
  | .right color (.node .red left s right) p :: up =>
    rebuild (eraseColorRight node .red p (right.setColor .black)).1 (.right color left s :: up)
  | .right color sibling p :: up =>
    match eraseColorRight node color p sibling with
    | (tree, true) => rebuild tree up
    | (tree, false) => rbEraseColor tree up

/-- A node: colour, children and the links above. -/
structure RbPosition (α : Type) where
  color : RbColor
  left : RbTree α
  right : RbTree α
  links : List (RbLink α)

/-- Where an entry is; the C code holds a pointer to the node. -/
def locate [DecidableEq α] (entry : α) : RbTree α → List (RbLink α) → Option (RbPosition α)
  | .null, _ => none
  | .node color left here right, links =>
    if here = entry then some ⟨color, left, right, links⟩
    else
      match locate entry left (.left color here right :: links) with
      | some position => some position
      | none => locate entry right (.right color left here :: links)

/-- The leftmost node: colour, entry, right child and links above. -/
def leftmost (color : RbColor) (entry : α) (right : RbTree α) : RbTree α → List (RbLink α) →
      RbColor × α × RbTree α × List (RbLink α)
  | .null, links => (color, entry, right, links)
  | .node inner left next innerRight, links =>
    leftmost inner next innerRight left (.left color entry right :: links)

/-- `__rb_erase_augmented` at a node, then its rebalancing. -/
def eraseAt (position : RbPosition α) : RbTree α :=
  match position.left, position.right with
  | .null, .null =>
    match position.color with
    | .black => rbEraseColor .null position.links
    | .red => rebuild .null position.links
  | .null, child => rebuild (child.setColor position.color) position.links
  | child, .null => rebuild (child.setColor position.color) position.links
  | left, .node rightColor rightLeft rightEntry rightRight =>
    match leftmost rightColor rightEntry rightRight rightLeft [] with
    | (successorColor, successor, child, inner) =>
      let links := inner ++ .right position.color left successor :: position.links
      match child, successorColor with
      | .null, .black => rbEraseColor .null links
      | .null, .red => rebuild .null links
      | child, _ => rebuild (child.setColor .black) links

/-- `rb_erase`. -/
def rbErase [DecidableEq α] (entry : α) (tree : RbTree α) : RbTree α :=
  match locate entry tree [] with
  | some position => eraseAt position
  | none => tree

/-- Rebuilding puts the subtree between what is around it. -/
@[simp] theorem toList_rebuild
    (tree : RbTree α)
    (links : List (RbLink α)) :
    (rebuild tree links).toList = entriesBefore links ++ tree.toList ++ entriesAfter links := by
  induction links generalizing tree with
  | nil => simp [rebuild, entriesBefore, entriesAfter]
  | cons link up inductionHypothesis =>
    cases link <;> simp [rebuild, entriesBefore, entriesAfter, inductionHypothesis]

theorem toList_rbInsert
    (left : RbTree α)
    (entry : α)
    (right : RbTree α)
    (links : List (RbLink α)) :
    (rbInsert left entry right links).toList = entriesBefore links ++ left.toList ++ entry ::
    right.toList ++ entriesAfter links := by
  fun_induction rbInsert left entry right links <;> simp_all [entriesBefore, entriesAfter]

theorem toList_rbInsertColor :
    (rbInsertColor entry links).toList = entriesBefore links ++ entry :: entriesAfter links := by
  simp [rbInsertColor, toList_rbInsert]

theorem toList_eraseColorLeft
    (sibling : RbTree α) :
    (eraseColorLeft node color p sibling).1.toList = node.toList ++ p :: sibling.toList := by
  fun_cases eraseColorLeft node color p sibling <;> simp_all

theorem toList_eraseColorRight
    (sibling : RbTree α) :
    (eraseColorRight node color p sibling).1.toList = sibling.toList ++ p :: node.toList := by
  fun_cases eraseColorRight node color p sibling <;> simp_all

/-- Rebalancing after an erase keeps the order. -/
theorem toList_rbEraseColor :
    (rbEraseColor node links).toList =
    entriesBefore links ++ node.toList ++ entriesAfter links := by
  fun_induction rbEraseColor node links with
  | case1 node => simp [entriesBefore, entriesAfter]
  | case2 node color p left s right up => simp [toList_eraseColorLeft, entriesBefore, entriesAfter]
  | case3 node color p sibling up black tree fixed
  | case4 node color p sibling up black tree fixed inductionHypothesis =>
    have same := toList_eraseColorLeft node color p sibling
    simp_all [entriesBefore, entriesAfter]
  | case5 node color left s right p up => simp [toList_eraseColorRight, entriesBefore, entriesAfter]
  | case6 node color sibling p up black tree fixed
  | case7 node color sibling p up black tree fixed inductionHypothesis =>
    have same := toList_eraseColorRight node color p sibling
    simp_all [entriesBefore, entriesAfter]

theorem entriesBefore_append
    (inner outer : List (RbLink α)) :
    entriesBefore (inner ++ outer) = entriesBefore outer ++ entriesBefore inner := by
  induction inner with
  | nil => simp [entriesBefore]
  | cons link up inductionHypothesis =>
    cases link <;> simp [entriesBefore, inductionHypothesis]

theorem entriesAfter_append
    (inner outer : List (RbLink α)) :
    entriesAfter (inner ++ outer) = entriesAfter inner ++ entriesAfter outer := by
  induction inner with
  | nil => simp [entriesAfter]
  | cons link up inductionHypothesis =>
    cases link <;> simp [entriesAfter, inductionHypothesis]

/-- The leftmost node has nothing before it. -/
theorem toList_leftmost
    (right left : RbTree α)
    (links : List (RbLink α)) :
    entriesBefore (leftmost color entry right left links).2.2.2 =
    entriesBefore links ∧ (leftmost color entry right left links).2.1 ::
    (leftmost color entry right left links).2.2.1.toList ++
    entriesAfter (leftmost color entry right left links).2.2.2 =
    left.toList ++ entry :: right.toList ++ entriesAfter links := by
  induction left generalizing color entry right links with
  | null => simp [leftmost]
  | node inner left next innerRight leftHypothesis rightHypothesis =>
    obtain ⟨before, after⟩ :=
      leftHypothesis inner next innerRight (.left color entry right :: links)
    refine ⟨?_, ?_⟩
    · simpa [leftmost, entriesBefore] using before
    · simpa [leftmost, entriesAfter] using after

end

/-- Erasing leaves what is before and after the node. -/
theorem toList_eraseAt
    (position : RbPosition α) :
    (eraseAt position).toList = entriesBefore position.links ++ position.left.toList ++
    position.right.toList ++ entriesAfter position.links := by
  obtain ⟨color, left, right, links⟩ := position
  cases left with
  | null =>
    cases right with
    | null =>
      cases color <;> simp [eraseAt, toList_rbEraseColor]
    | node => simp [eraseAt]
  | node leftColor leftLeft leftEntry leftRight =>
    cases right with
    | null => simp [eraseAt]
    | node rightColor rightLeft rightEntry rightRight =>
      obtain ⟨before, after⟩ := toList_leftmost rightColor rightEntry rightRight rightLeft []
      generalize found : leftmost rightColor rightEntry rightRight rightLeft [] =
        minimum at before after
      obtain ⟨successorColor, successor, child, inner⟩ := minimum
      simp only [entriesAfter, append_nil] at before after
      have erased : ∀ tree : RbTree α, tree.toList = entriesBefore (inner ++ .right color
          (.node leftColor leftLeft leftEntry leftRight) successor :: links) ++
          child.toList ++ entriesAfter (inner ++ .right color
          (.node leftColor leftLeft leftEntry leftRight) successor :: links) →
          tree.toList = entriesBefore links ++ (RbTree.node leftColor leftLeft leftEntry
          leftRight).toList ++ (RbTree.node rightColor rightLeft rightEntry
          rightRight).toList ++ entriesAfter links := by
        intro tree shape
        rw [shape, RbTree.toList_node rightColor, ← after]
        simp [entriesBefore_append, entriesAfter_append, entriesBefore, entriesAfter, before]
      simp only [eraseAt, found]
      cases child with
      | null =>
        cases successorColor with
        | black => exact erased _ (toList_rbEraseColor _ _)
        | red => exact erased _ (toList_rebuild _ _)
      | node =>
        refine erased _ ?_
        rw [toList_rebuild, RbTree.toList_setColor]

section
variable [DecidableEq α] {entry : α} {tree : RbTree α}

/-- `locate` finds the entry with the tree around it. -/
theorem toList_locate
    {links : List (RbLink α)}
    {position : RbPosition α}
    (found : locate entry tree links = some position) :
    entriesBefore position.links ++ position.left.toList ++ entry ::
    position.right.toList ++ entriesAfter position.links =
    entriesBefore links ++ tree.toList ++ entriesAfter links := by
  induction tree generalizing links with
  | null => cases found
  | node color left here right leftHypothesis rightHypothesis =>
    unfold locate at found
    split at found
    · rename_i same
      cases found
      simp [same]
    split at found
    · rename_i inLeft
      cases found
      rw [leftHypothesis inLeft]
      simp [entriesBefore, entriesAfter]
    · rw [rightHypothesis found]
      simp [entriesBefore, entriesAfter]

theorem exists_locate
    (member : entry ∈ tree.toList)
    (links : List (RbLink α)) :
    ∃ position, locate entry tree links = some position := by
  induction tree generalizing links with
  | null => simp at member
  | node color left here right leftHypothesis rightHypothesis =>
    unfold locate
    by_cases same : here = entry
    · exact ⟨_, by simp only [same]; rfl⟩
    simp only [same, ↓reduceIte]
    rw [RbTree.toList_node, mem_append, mem_cons] at member
    rcases member with inLeft | rfl | inRight
    · obtain ⟨position, found⟩ := leftHypothesis inLeft _
      exact ⟨position, by rw [found]⟩
    · exact absurd rfl same
    split
    · exact ⟨_, rfl⟩
    · exact rightHypothesis inRight _

/-- `rb_erase` takes the entry out and keeps the others' order. -/
theorem toList_rbErase
    (distinct : tree.toList.Nodup)
    (member : entry ∈ tree.toList) :
    (rbErase entry tree).toList = tree.toList.filter (· ≠ entry) := by
  obtain ⟨position, found⟩ := exists_locate member []
  have shape := toList_locate found
  simp only [entriesBefore, entriesAfter, nil_append, append_nil] at shape
  rw [rbErase, found, toList_eraseAt]
  rw [← shape] at distinct ⊢
  have apart : entry ∉ entriesBefore position.links ++ position.left.toList ∧
      entry ∉ position.right.toList ++ entriesAfter position.links := by
    rw [append_assoc, cons_append, nodup_middle] at distinct
    have outside := (nodup_cons.mp distinct).1
    simpa [and_assoc] using outside
  rw [append_assoc _ (entry :: _), cons_append, filter_append, filter_cons_of_neg (by simp),
    filter_eq_self.mpr, filter_eq_self.mpr, append_assoc]
  · intro other inAfter
    have different := ne_of_mem_of_not_mem inAfter apart.2
    simpa using different
  · intro other inBefore
    have different := ne_of_mem_of_not_mem inBefore apart.1
    simpa using different

end

/-- Which child a search goes to. -/
inductive Turn where
  | left
  | right
  deriving Repr, DecidableEq

/-- A search down to a leaf; it stops where `turn` has no answer. -/
def walk (turn : α → Option Turn) : RbTree α → List (RbLink α) → Option (List (RbLink α))
  | .null, links => some links
  | .node color left entry right, links =>
    match turn entry with
    | some .left => walk turn left (.left color entry right :: links)
    | some .right => walk turn right (.right color left entry :: links)
    | none => none

/--
When the sequence has a first part passed on the right and a second part
passed on the left, the search ends between them.
-/
theorem exists_walk
    {turn : α → Option Turn}
    {tree : RbTree α}
    (answered : ∀ entry ∈ tree.toList, turn entry ≠ none)
    (divided : tree.toList.Pairwise fun first second => turn first = some .left →
      turn second = some .left)
    (links : List (RbLink α)) :
    ∃ path before after, walk turn tree links = some path ∧ tree.toList = before ++ after ∧
    (∀ entry ∈ before, turn entry = some .right) ∧ (∀ entry ∈ after, turn entry = some .left) ∧
    entriesBefore path = entriesBefore links ++ before ∧
    entriesAfter path = after ++ entriesAfter links := by
  induction tree generalizing links with
  | null => exact ⟨links, [], [], rfl, rfl, by simp, by simp, by simp, by simp⟩
  | node color left here right leftHypothesis rightHypothesis =>
    obtain ⟨leftDivided, hereDivided, crossing⟩ := pairwise_append.mp divided
    obtain ⟨fromHere, rightDivided⟩ := pairwise_cons.mp hereDivided
    cases turned : turn here with
    | none => exact absurd turned (answered here (by simp))
    | some side =>
      cases side with
      | left =>
        obtain ⟨path, before, after, walked, shape, passedRight,
          passedLeft, beforeShape, afterShape⟩ :=
          leftHypothesis (fun entry member => answered entry (by simp [member]))
            leftDivided (.left color here right :: links)
        refine ⟨path, before, after ++ here :: right.toList, ?_, ?_, passedRight, ?_, ?_, ?_⟩
        · simpa only [walk, turned] using walked
        · simp [shape]
        · intro entry member
          rw [mem_append, mem_cons] at member
          rcases member with inAfter | rfl | inRight
          · exact passedLeft entry inAfter
          · exact turned
          · exact fromHere entry inRight turned
        · rw [beforeShape, entriesBefore]
        · simp [afterShape, entriesAfter]
      | right =>
        obtain ⟨path, before, after, walked, shape, passedRight,
          passedLeft, beforeShape, afterShape⟩ :=
          rightHypothesis (fun entry member => answered entry (by simp [member]))
            rightDivided (.right color left here :: links)
        refine ⟨path, left.toList ++ here :: before, after, ?_, ?_, ?_, passedLeft, ?_, ?_⟩
        · simpa only [walk, turned] using walked
        · simp [shape]
        · intro entry member
          rw [mem_append, mem_cons] at member
          rcases member with inLeft | rfl | inBefore
          · cases other : turn entry with
            | none => exact absurd other (answered entry (by simp [inLeft]))
            | some side =>
              cases side with
              | right => rfl
              | left =>
                have same := crossing entry inLeft here (by simp) other
                rw [turned] at same
                cases same
          · exact turned
          · exact passedRight entry inBefore
        · simp [beforeShape, entriesBefore]
        · rw [afterShape, entriesAfter]

/--
A search that turns left at what comes after the new entry and right at what
comes before it keeps the tree ordered.
-/
theorem exists_insert_ordered
    {turn : α → Option Turn}
    {tree : RbTree α}
    {ordered : α → α → Prop}
    {above : α → Prop}
    [DecidablePred above]
    (entry : α)
    (sorted : tree.toList.Pairwise ordered)
    (turns : ∀ other ∈ tree.toList, turn other = if above other then some .left else some .right)
    (upwards : ∀ {first second}, ordered first second → above first → above second)
    (onLeft : ∀ other ∈ tree.toList, above other → ordered entry other)
    (onRight : ∀ other ∈ tree.toList, ¬ above other → ordered other entry) :
    ∃ path, walk turn tree [] = some path ∧
        (rbInsertColor entry path).toList.Perm (entry :: tree.toList) ∧
        (rbInsertColor entry path).toList.Pairwise ordered := by
  have turnsLeft : ∀ other ∈ tree.toList, turn other = some .left → above other := by
    intro other member
    rw [turns other member]
    split
    · intro _
      assumption
    · intro goesLeft
      cases goesLeft
  have turnsRight : ∀ other ∈ tree.toList, turn other = some .right → ¬ above other := by
    intro other member
    rw [turns other member]
    split
    · intro goesRight
      cases goesRight
    · intro _
      assumption
  have answered : ∀ other ∈ tree.toList, turn other ≠ none := by
    intro other member
    rw [turns other member]
    split <;> simp
  have turnsDivided : tree.toList.Pairwise fun first second =>
      turn first = some .left → turn second = some .left := by
    refine sorted.imp_of_mem ?_
    intro first second firstMember secondMember earlier goesLeft
    rw [turns second secondMember]
    exact if_pos (upwards earlier (turnsLeft first firstMember goesLeft))
  obtain ⟨path, before, after, walked, shape, passedRight, passedLeft,
    beforeShape, afterShape⟩ := exists_walk answered turnsDivided []
  have inserted : (rbInsertColor entry path).toList = before ++ entry :: after := by
    rw [toList_rbInsertColor, beforeShape, afterShape]
    simp [entriesBefore, entriesAfter]
  rw [shape] at sorted onLeft onRight turnsLeft turnsRight
  obtain ⟨beforeSorted, afterSorted, crossing⟩ := pairwise_append.mp sorted
  refine ⟨path, walked, ?_, ?_⟩
  · rw [inserted, shape]
    exact perm_middle
  rw [inserted]
  refine pairwise_append.mpr ⟨beforeSorted, ?_, ?_⟩
  · refine pairwise_cons.mpr ⟨?_, afterSorted⟩
    intro other member
    have inTree := mem_append_right before member
    exact onLeft other inTree (turnsLeft other inTree (passedLeft other member))
  · intro first firstMember second secondMember
    rcases mem_cons.mp secondMember with rfl | inAfter
    · have inTree := mem_append_left after firstMember
      exact onRight first inTree (turnsRight first inTree (passedRight first firstMember))
    · exact crossing first firstMember second inAfter

end EchoKernel.Rbtree
