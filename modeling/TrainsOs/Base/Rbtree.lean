import TrainsOs.Lib.RedBlack
import Mathlib.Logic.Function.Basic

/-!
# The red-black tree of the kernel

The functions of `rbtree.c`, `rbtree.h` and `rbtree_priv.h`, without the callbacks for
augmented trees, which do nothing here. A pointer to a node is a value of `ν`, and `none` is
`NULL`. The word `__rb_parent_color` is the pointer to the parent with the color in its lowest
bit, the two fields `parent` and `color`.

A function returns `none` when it dereferences `NULL`, when it takes the word of a black node
for a pointer, or when its loop has not ended after `fuel` rounds. The source writes the two
mirror images of a case one after the other; here the side is an argument.
-/

namespace Rbtree

open RedBlack (Color Side)

/-- `struct rb_node`. -/
@[ext]
structure RbNode (ν : Type) where
  parent : Option ν
  color : Color
  rbRight : Option ν
  rbLeft : Option ν
deriving DecidableEq

/-- `struct rb_root`, and the nodes in memory. -/
structure RbRoot (ν : Type) where
  node : ν → RbNode ν
  rbNode : Option ν

variable {ν : Type}

def RbNode.child (n : RbNode ν) : Side → Option ν
  | .left => n.rbLeft
  | .right => n.rbRight

def RbNode.setChild (n : RbNode ν) (s : Side) (v : Option ν) : RbNode ν :=
  match s with
  | .left => { n with rbLeft := v }
  | .right => { n with rbRight := v }

/-- Where a pointer to a node is stored: `struct rb_node **`. -/
inductive Link (ν : Type) where
  | root
  | child (x : ν) (s : Side)

namespace RbRoot

variable [DecidableEq ν]

/-- Changing a node. -/
def modify (t : RbRoot ν) (x : ν) (f : RbNode ν → RbNode ν) : RbRoot ν :=
  { t with node := Function.update t.node x (f (t.node x)) }

/-- `WRITE_ONCE(x->rb_left, v)` and `WRITE_ONCE(x->rb_right, v)`. -/
def writeOnce (t : RbRoot ν) (x : ν) (s : Side) (v : Option ν) : RbRoot ν :=
  t.modify x fun n => n.setChild s v

/-- `*link`. -/
def read (t : RbRoot ν) : Link ν → Option ν
  | .root => t.rbNode
  | .child x s => (t.node x).child s

/-- `*link = v`. -/
def write (t : RbRoot ν) (link : Link ν) (v : Option ν) : RbRoot ν :=
  match link with
  | .root => { t with rbNode := v }
  | .child x s => t.writeOnce x s v

/-- `rb_is_red`. -/
def rbIsRed (t : RbRoot ν) (rb : ν) : Bool :=
  (t.node rb).color = .red

/-- `rb_is_black`. -/
def rbIsBlack (t : RbRoot ν) (rb : ν) : Bool :=
  (t.node rb).color = .black

/-- `rb_set_parent`. -/
def rbSetParent (t : RbRoot ν) (rb : ν) (p : Option ν) : RbRoot ν :=
  t.modify rb fun n => { n with parent := p }

/-- `rb_set_parent_color`. -/
def rbSetParentColor (t : RbRoot ν) (rb : ν) (p : Option ν) (color : Color) : RbRoot ν :=
  t.modify rb fun n => { n with parent := p, color := color }

/-- `if (tmp) rb_set_parent_color(tmp, p, RB_BLACK)`. -/
def blackenIf (t : RbRoot ν) (tmp p : Option ν) : RbRoot ν :=
  match tmp with
  | none => t
  | some x => t.rbSetParentColor x p .black

/-- `rb_set_black`, which adds `RB_BLACK` to the word of a red node. -/
def rbSetBlack (t : RbRoot ν) (rb : ν) : Option (RbRoot ν) :=
  if t.rbIsRed rb then
    some (t.modify rb fun n => { n with color := .black })
  else
    none

/-- `rb_red_parent`, which takes the word of a red node for a pointer. -/
def rbRedParent (t : RbRoot ν) (red : ν) : Option (Option ν) :=
  if t.rbIsRed red then some (t.node red).parent else none

/-- `if (tmp) rb_set_parent(tmp, p)`. -/
def setParentIf (t : RbRoot ν) (tmp p : Option ν) : RbRoot ν :=
  match tmp with
  | none => t
  | some x => t.rbSetParent x p

/-- `__rb_change_child`. -/
def rbChangeChild (t : RbRoot ν) (old : ν) (new parent : Option ν) : RbRoot ν :=
  match parent with
  | some parent =>
    if (t.node parent).rbLeft = some old then
      t.writeOnce parent .left new
    else
      t.writeOnce parent .right new
  | none => { t with rbNode := new }

/-- `__rb_rotate_set_parents`. -/
def rbRotateSetParents (t : RbRoot ν) (old new : ν) (color : Color) : RbRoot ν :=
  let parent := (t.node old).parent
  let t := t.rbSetParentColor new parent (t.node old).color
  let t := t.rbSetParentColor old (some new) color
  t.rbChangeChild old (some new) parent

/-! ### Insertion -/

/-- Case 1 of `__rb_insert`: the uncle `tmp` is red. -/
def insertFlip (t : RbRoot ν) (parent gparent tmp : ν) : RbRoot ν × (ν × Option ν) :=
  let t := t.rbSetParentColor tmp (some gparent) .black
  let t := t.rbSetParentColor parent (some gparent) .black
  let parent := (t.node gparent).parent
  (t.rbSetParentColor gparent parent .red, (gparent, parent))

/-- Case 2: `node` is the child of its parent on the side away from `s`. -/
def insertInner (t : RbRoot ν) (s : Side) (node parent : ν) : RbRoot ν :=
  let tmp := (t.node node).child s
  let t := t.writeOnce parent s.other tmp
  let t := t.writeOnce node s (some parent)
  let t := t.blackenIf tmp (some parent)
  t.rbSetParentColor parent (some node) .red

/-- Case 3: `parent` is the child of `gparent` on the side `s`. -/
def insertOuter (t : RbRoot ν) (s : Side) (parent gparent : ν) (tmp : Option ν) : RbRoot ν :=
  let t := t.writeOnce gparent s tmp
  let t := t.writeOnce parent s.other (some gparent)
  let t := t.blackenIf tmp (some gparent)
  t.rbRotateSetParents gparent parent .red

/-- A round of `__rb_insert` below a red parent that is the child of `gparent` on the side
`s`: the tree, and the node and the parent of the next round if there is one. -/
def insertRound (t : RbRoot ν) (s : Side) (node parent gparent : ν) :
    RbRoot ν × Option (ν × Option ν) :=
  let tmp := (t.node gparent).child s.other
  match tmp.filter t.rbIsRed with
  | some tmp =>
    let (t, next) := t.insertFlip parent gparent tmp
    (t, some next)
  | none =>
    let tmp := (t.node parent).child s.other
    if tmp = some node then
      let t := t.insertInner s node parent
      (t.insertOuter s node gparent ((t.node node).child s.other), none)
    else
      (t.insertOuter s parent gparent tmp, none)

/-- `__rb_insert`. -/
def insertLoop : ℕ → RbRoot ν → ν → Option ν → Option (RbRoot ν)
  | 0, _, _, _ => none
  | _ + 1, t, node, none => some (t.rbSetParentColor node none .black)
  | fuel + 1, t, node, some parent =>
    if t.rbIsBlack parent then
      some t
    else do
      let gparent ← ← t.rbRedParent parent
      -- `parent` is the left child unless it is the right one
      let s := if (t.node gparent).rbRight = some parent then Side.right else Side.left
      match t.insertRound s node parent gparent with
      | (t, some (node, parent)) => insertLoop fuel t node parent
      | (t, none) => some t

/-- `rb_insert_color`. -/
def rbInsertColor (fuel : ℕ) (t : RbRoot ν) (node : ν) : Option (RbRoot ν) := do
  let parent ← t.rbRedParent node
  insertLoop fuel t node parent

/-- `rb_link_node`. -/
def rbLinkNode (t : RbRoot ν) (node : ν) (parent : Option ν) (link : Link ν) : RbRoot ν :=
  (t.modify node fun _ => ⟨parent, .red, none, none⟩).write link (some node)

/-- The loop of `rb_add`: the link that is `NULL`, and its owner. -/
def addLoop (cmp : ν → ν → ℤ) (t : RbRoot ν) (node : ν) :
    ℕ → Link ν → Option ν → Option (Link ν × Option ν)
  | 0, _, _ => none
  | fuel + 1, link, parent =>
    match t.read link with
    | none => some (link, parent)
    | some parent =>
      if cmp node parent < 0 then
        addLoop cmp t node fuel (.child parent .left) (some parent)
      else
        addLoop cmp t node fuel (.child parent .right) (some parent)

/-- `rb_add`. -/
def rbAdd (fuel : ℕ) (t : RbRoot ν) (node : ν) (cmp : ν → ν → ℤ) : Option (RbRoot ν) := do
  let (link, parent) ← addLoop cmp t node fuel .root none
  rbInsertColor fuel (t.rbLinkNode node parent link) node

/-- The loop of `rb_find_add`: an equivalent node, or the link that is `NULL` and its
owner. -/
def findAddLoop (cmp : ν → ν → ℤ) (t : RbRoot ν) (node : ν) :
    ℕ → Link ν → Option ν → Option (ν ⊕ (Link ν × Option ν))
  | 0, _, _ => none
  | fuel + 1, link, parent =>
    match t.read link with
    | none => some (.inr (link, parent))
    | some parent =>
      if cmp node parent < 0 then
        findAddLoop cmp t node fuel (.child parent .left) (some parent)
      else if cmp node parent > 0 then
        findAddLoop cmp t node fuel (.child parent .right) (some parent)
      else
        some (.inl parent)

/-- `rb_find_add`: the tree afterwards, and what is returned. -/
def rbFindAdd (fuel : ℕ) (t : RbRoot ν) (node : ν) (cmp : ν → ν → ℤ) :
    Option (RbRoot ν × Option ν) := do
  match ← findAddLoop cmp t node fuel .root none with
  | .inl found => some (t, some found)
  | .inr (link, parent) =>
    let t ← rbInsertColor fuel (t.rbLinkNode node parent link) node
    some (t, none)

/-- The loop of `rb_find` at `node`; `cmp` compares the key with that of a node. -/
def findLoop (cmp : ν → ℤ) (t : RbRoot ν) : ℕ → Option ν → Option (Option ν)
  | _, none => some none
  | 0, some _ => none
  | fuel + 1, some node =>
    if cmp node < 0 then
      findLoop cmp t fuel (t.node node).rbLeft
    else if cmp node > 0 then
      findLoop cmp t fuel (t.node node).rbRight
    else
      some (some node)

/-- `rb_find`. -/
def rbFind (fuel : ℕ) (t : RbRoot ν) (cmp : ν → ℤ) : Option (Option ν) :=
  findLoop cmp t fuel t.rbNode

/-! ### Deletion -/

/-- The loop of `__rb_erase_augmented` that looks for the successor, from the left child
`tmp` of `successor` on: the parent of the successor and the successor. -/
def successorLoop (t : RbRoot ν) : ℕ → ν → ν → Option (ν × ν)
  | 0, _, _ => none
  | fuel + 1, successor, tmp =>
    match (t.node tmp).rbLeft with
    | none => some (successor, tmp)
    | some left => successorLoop t fuel tmp left

/-- The end of the case of two children in `__rb_erase_augmented`, when `successor` has been
taken off its place, where its right child `child2` is now the child of `parent`. -/
def eraseReplace (t : RbRoot ν) (node successor parent : ν) (child2 : Option ν) :
    Option (RbRoot ν × Option ν) := do
  let tmp ← (t.node node).rbLeft
  let t := t.writeOnce successor .left (some tmp)
  let t := t.rbSetParent tmp (some successor)
  let pc := (t.node node).parent
  let pcColor := (t.node node).color
  let t := t.rbChangeChild node (some successor) pc
  let (t, rebalance) :=
    match child2 with
    | some child2 => (t.rbSetParentColor child2 (some parent) .black, none)
    | none => (t, if t.rbIsBlack successor then some parent else none)
  some (t.rbSetParentColor successor pc pcColor, rebalance)

/-- `__rb_erase_augmented`: the tree afterwards, and the parent from which it has to be
rebalanced. -/
def rbEraseAugmented (fuel : ℕ) (t : RbRoot ν) (node : ν) : Option (RbRoot ν × Option ν) :=
  let pc := (t.node node).parent
  let pcColor := (t.node node).color
  match (t.node node).rbLeft, (t.node node).rbRight with
  | none, child =>
    let t := t.rbChangeChild node child pc
    match child with
    | some child => some (t.rbSetParentColor child pc pcColor, none)
    | none => some (t, if pcColor = .black then pc else none)
  | some tmp, none =>
    let t := t.rbSetParentColor tmp pc pcColor
    some (t.rbChangeChild node (some tmp) pc, none)
  | some _, some child =>
    match (t.node child).rbLeft with
    | none => t.eraseReplace node child child (t.node child).rbRight
    | some tmp => do
      let (parent, successor) ← t.successorLoop fuel child tmp
      let child2 := (t.node successor).rbRight
      let t := t.writeOnce parent .left child2
      let t := t.writeOnce successor .right (some child)
      let t := t.rbSetParent child (some successor)
      t.eraseReplace node successor parent child2

/-- Case 1 of `____rb_erase_color`: the sibling, on the side away from `s`, is red. The result
is the tree and the new sibling. -/
def eraseRed (t : RbRoot ν) (s : Side) (parent sibling : ν) : Option (RbRoot ν × ν) := do
  let tmp1 := (t.node sibling).child s
  let t := t.writeOnce parent s.other tmp1
  let t := t.writeOnce sibling s (some parent)
  let tmp1 ← tmp1
  let t := t.rbSetParentColor tmp1 (some parent) .black
  some (t.rbRotateSetParents parent sibling .red, tmp1)

/-- Case 2: both nephews are black. The result is the tree, and the node and the parent of
the next round if there is one. -/
def eraseFlip (t : RbRoot ν) (parent sibling : ν) : Option (RbRoot ν × Option (ν × ν)) :=
  let t := t.rbSetParentColor sibling (some parent) .red
  if t.rbIsRed parent then do
    let t ← t.rbSetBlack parent
    some (t, none)
  else
    some (t, (t.node parent).parent.map fun p => (parent, p))

/-- Case 3: only the near nephew `tmp2` is red. -/
def eraseInner (t : RbRoot ν) (s : Side) (parent sibling tmp2 : ν) : RbRoot ν :=
  let tmp1 := (t.node tmp2).child s.other
  let t := t.writeOnce sibling s tmp1
  let t := t.writeOnce tmp2 s.other (some sibling)
  let t := t.writeOnce parent s.other (some tmp2)
  t.blackenIf tmp1 (some sibling)

/-- Case 4: the far nephew `tmp1` is red, or was the sibling in case 3. -/
def eraseOuter (t : RbRoot ν) (s : Side) (parent sibling tmp1 : ν) : RbRoot ν :=
  let tmp2 := (t.node sibling).child s
  let t := t.writeOnce parent s.other tmp2
  let t := t.writeOnce sibling s (some parent)
  let t := t.rbSetParentColor tmp1 (some sibling) .black
  let t := t.setParentIf tmp2 (some parent)
  t.rbRotateSetParents parent sibling .black

/-- The cases 2 to 4, for a black sibling. -/
def eraseBlack (t : RbRoot ν) (s : Side) (parent sibling : ν) :
    Option (RbRoot ν × Option (ν × ν)) :=
  match ((t.node sibling).child s.other).filter t.rbIsRed with
  | some tmp1 => some (t.eraseOuter s parent sibling tmp1, none)
  | none =>
    match ((t.node sibling).child s).filter t.rbIsRed with
    | none => t.eraseFlip parent sibling
    | some tmp2 =>
      let t := t.eraseInner s parent sibling tmp2
      some (t.eraseOuter s parent tmp2 sibling, none)

/-- A round of `____rb_erase_color` for the child of `parent` on the side `s`. -/
def eraseRound (t : RbRoot ν) (s : Side) (parent : ν) : Option (RbRoot ν × Option (ν × ν)) := do
  let sibling ← (t.node parent).child s.other
  if t.rbIsRed sibling then
    let (t, sibling) ← t.eraseRed s parent sibling
    t.eraseBlack s parent sibling
  else
    t.eraseBlack s parent sibling

/-- `____rb_erase_color`. -/
def eraseLoop : ℕ → RbRoot ν → Option ν → ν → Option (RbRoot ν)
  | 0, _, _, _ => none
  | fuel + 1, t, node, parent => do
    -- `node` is the left child unless it is the right one
    let s := if (t.node parent).rbRight = node then Side.right else Side.left
    match ← t.eraseRound s parent with
    | (t, some (node, parent)) => eraseLoop fuel t (some node) parent
    | (t, none) => some t

/-- `rb_erase`. -/
def rbErase (fuel : ℕ) (t : RbRoot ν) (node : ν) : Option (RbRoot ν) := do
  match ← t.rbEraseAugmented fuel node with
  | (t, some rebalance) => eraseLoop fuel t none rebalance
  | (t, none) => some t

/-! ### Going through the tree -/

/-- `while (n->rb_left) n = n->rb_left`, and the same on the right. -/
def descendLoop (t : RbRoot ν) (s : Side) : ℕ → ν → Option ν
  | 0, _ => none
  | fuel + 1, n =>
    match (t.node n).child s with
    | none => some n
    | some n => descendLoop t s fuel n

/-- The loop of `rb_next` towards the root, which goes on while `node` is the child on the
side `s` of its parent. -/
def ascendLoop (t : RbRoot ν) (s : Side) : ℕ → ν → Option (Option ν)
  | 0, _ => none
  | fuel + 1, node =>
    match (t.node node).parent with
    | none => some none
    | some parent =>
      if (t.node parent).child s = some node then
        ascendLoop t s fuel parent
      else
        some (some parent)

/-- `RB_EMPTY_NODE`. -/
def rbEmptyNode (t : RbRoot ν) (node : ν) : Bool :=
  (t.node node).parent = some node ∧ t.rbIsRed node

def rbEnd (fuel : ℕ) (t : RbRoot ν) (s : Side) : Option (Option ν) :=
  match t.rbNode with
  | none => some none
  | some n => (t.descendLoop s fuel n).map some

def rbStep (fuel : ℕ) (t : RbRoot ν) (s : Side) (node : ν) : Option (Option ν) :=
  if t.rbEmptyNode node then
    some none
  else
    match (t.node node).child s with
    | some node => (t.descendLoop s.other fuel node).map some
    | none => t.ascendLoop s fuel node

/-- `rb_first`. -/
def rbFirst (fuel : ℕ) (t : RbRoot ν) : Option (Option ν) :=
  t.rbEnd fuel .left

/-- `rb_last`. -/
def rbLast (fuel : ℕ) (t : RbRoot ν) : Option (Option ν) :=
  t.rbEnd fuel .right

/-- `rb_next`. -/
def rbNext (fuel : ℕ) (t : RbRoot ν) (node : ν) : Option (Option ν) :=
  t.rbStep fuel .right node

/-- `rb_prev`. -/
def rbPrev (fuel : ℕ) (t : RbRoot ν) (node : ν) : Option (Option ν) :=
  t.rbStep fuel .left node

/-- `rb_replace_node`. -/
def rbReplaceNode (t : RbRoot ν) (victim new : ν) : RbRoot ν :=
  let parent := (t.node victim).parent
  let t := t.modify new fun _ => t.node victim
  let t := t.setParentIf (t.node victim).rbLeft (some new)
  let t := t.setParentIf (t.node victim).rbRight (some new)
  t.rbChangeChild victim (some new) parent

/-- `rb_left_deepest_node`. -/
def rbLeftDeepestNode (t : RbRoot ν) : ℕ → ν → Option ν
  | 0, _ => none
  | fuel + 1, node =>
    match (t.node node).rbLeft, (t.node node).rbRight with
    | some left, _ => rbLeftDeepestNode t fuel left
    | none, some right => rbLeftDeepestNode t fuel right
    | none, none => some node

/-- `rb_next_postorder`. -/
def rbNextPostorder (fuel : ℕ) (t : RbRoot ν) (node : Option ν) : Option (Option ν) :=
  match node with
  | none => some none
  | some node =>
    match (t.node node).parent with
    | none => some none
    | some parent =>
      if (t.node parent).rbLeft = some node then
        match (t.node parent).rbRight with
        | some right => (t.rbLeftDeepestNode fuel right).map some
        | none => some (some parent)
      else
        some (some parent)

/-- `rb_first_postorder`. -/
def rbFirstPostorder (fuel : ℕ) (t : RbRoot ν) : Option (Option ν) :=
  match t.rbNode with
  | none => some none
  | some n => (t.rbLeftDeepestNode fuel n).map some

end RbRoot

end Rbtree
