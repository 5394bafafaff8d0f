import SceneAudit.Hierarchy.AnchorOrder
import SceneAudit.Scene.Basic

/-! # The arena of transforms

Transforms are numbered in the order of their anchors. A transform lies below every transform whose
anchor is its parent reference; those that refer to nothing are roots.
-/

namespace SceneAudit

open Scene

/-- The transforms of a scene by number, and its objects. -/
structure Arena where
  transforms : List Transform
  objects : List Object
  deriving Repr

namespace Arena

def anchorLe (a b : Transform) : Bool :=
  (AnchorKey.ofAnchor a.anchor).le (AnchorKey.ofAnchor b.anchor)

/-- The arena of objects and transforms given in the order in which they are written. -/
def ofEntities (objects : List Object) (transforms : List Transform) : Arena :=
  ⟨Sorting.sort anchorLe transforms, objects⟩

def ofScene (scene : Scene) : Arena :=
  ofEntities scene.objects scene.transforms

def numbered (arena : Arena) : List (Transform × Nat) :=
  arena.transforms.zipIdx

def roots (arena : Arena) : List Nat :=
  (arena.numbered.filter fun e => e.1.isRoot).map Prod.snd

def isChild (parent child : Transform) : Bool :=
  !child.isRoot && child.parent == parent.anchor

/-- The numbers of the transforms below a transform in the order of their anchors, of equal anchors
the highest number first. -/
def childrenOf (arena : Arena) (parent : Transform) : List Nat :=
  (Sorting.sort (fun a b => anchorLe a.1 b.1)
    (arena.numbered.filter fun e => isChild parent e.1).reverse).map Prod.snd

/-- The numbers of the transforms below the transform with a number. -/
def children (arena : Arena) (number : Nat) : List Nat :=
  match arena.transforms[number]? with
  | some parent => arena.childrenOf parent
  | none => []

/-- The edges of a graph from each transform to those below it, in the order in which they are added
when the transforms are gone through by number. -/
def edges (arena : Arena) : List (Nat × Nat) :=
  arena.numbered.flatMap fun child =>
    (arena.numbered.filter fun parent => isChild parent.1 child.1).map fun parent =>
      (parent.2, child.2)

/-- The ends of the edges from a transform, the latest edge first. -/
def neighbors (arena : Arena) (p : Nat) : List Nat :=
  ((arena.edges.filter fun e => e.1 = p).map Prod.snd).reverse

/-- The name of the object with an anchor; of several objects the last one counts. -/
def ownerName? (arena : Arena) (owner : Text) : Option Text :=
  (arena.objects.reverse.find? fun o => o.anchor = owner).map Object.name

end Arena

end SceneAudit
