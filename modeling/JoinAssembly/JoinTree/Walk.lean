import JoinAssembly.JoinTree.Basic

/-!
# Walks of a forest of children

Both walks keep an explicit stack and no record of where they have been: a child list is followed as
often as its stream is met. They are given as one step and a bounded number of repetitions, so that
whether a walk has come to its end can be asked of its state.
-/

namespace JoinAssembly

/-- Repeat a step a number of times. -/
def iterate {α : Type} (step : α → α) : Nat → α → α
  | 0, a => a
  | n + 1, a => iterate step n (step a)

@[simp] theorem iterate_zero {α : Type} (step : α → α) (a : α) : iterate step 0 a = a := rfl

@[simp] theorem iterate_succ {α : Type} (step : α → α) (n : Nat) (a : α) :
    iterate step (n + 1) a = iterate step n (step a) := rfl

theorem iterate_add {α : Type} (step : α → α) (m n : Nat) (a : α) :
    iterate step (m + n) a = iterate step n (iterate step m a) := by
  induction m generalizing a with
  | zero => simp
  | succ m ih => rw [Nat.add_right_comm, iterate_succ, ih, iterate_succ]

/-- A state that a step leaves alone stays for ever. -/
theorem iterate_of_fixed {α : Type} {step : α → α} {a : α} (h : step a = a) (n : Nat) :
    iterate step n a = a := by
  induction n with
  | zero => rfl
  | succ n ih => rw [iterate_succ, h, ih]

/-! ### Parents first -/

/-- A walk that visits parents before children. -/
structure Descent where
  /-- The streams met so far, in order. -/
  visited : List StreamIndex
  /-- The streams still to be met, the next one first. -/
  stack : List StreamIndex
deriving DecidableEq

namespace Descent

def start (root : StreamIndex) : Descent := ⟨[], [root]⟩

/-- Meet the stream on top of the stack and put its children in its place. -/
def step (children : StreamIndex → List StreamIndex) (w : Descent) : Descent :=
  match w.stack with
  | [] => w
  | s :: rest => ⟨w.visited ++ [s], children s ++ rest⟩

def run (children : StreamIndex → List StreamIndex) (steps : Nat) (w : Descent) : Descent :=
  iterate (step children) steps w

end Descent

/-- The walk from a root of a forest of `n` streams, parents first. It meets no stream twice, hence
ends within `n` steps. -/
def preorderWalk (children : StreamIndex → List StreamIndex) (n : Nat) (root : StreamIndex) :
    List StreamIndex :=
  (Descent.run children n (.start root)).visited

/-! ### Children first -/

/-- A walk that visits children before parents. -/
structure Ascent where
  /-- The streams whose subtree is done, in order. -/
  finished : List StreamIndex
  /-- The streams being visited, the innermost first, each with the children still to be entered. -/
  frames : List (StreamIndex × List StreamIndex)
deriving DecidableEq

namespace Ascent

def start (children : StreamIndex → List StreamIndex) (root : StreamIndex) : Ascent :=
  ⟨[], [(root, children root)]⟩

/-- Enter the next child of the innermost stream, or finish that stream. -/
def step (children : StreamIndex → List StreamIndex) (w : Ascent) : Ascent :=
  match w.frames with
  | [] => w
  | (s, []) :: rest => ⟨w.finished ++ [s], rest⟩
  | (s, c :: cs) :: rest => ⟨w.finished, (c, children c) :: (s, cs) :: rest⟩

def run (children : StreamIndex → List StreamIndex) (steps : Nat) (w : Ascent) : Ascent :=
  iterate (step children) steps w

end Ascent

/-- The walk from a root of a tree of `n` streams, children first. Every stream is entered once and
finished once, hence the walk ends within `2 * n` steps. -/
def postorderWalk (children : StreamIndex → List StreamIndex) (n : Nat) (root : StreamIndex) :
    List StreamIndex :=
  (Ascent.run children (2 * n) (.start children root)).finished

/-! ### Subtrees -/

/-- Enter the subtree of a stream whose children's subtrees are in the table. -/
def addSubtree (children : StreamIndex → List StreamIndex) (table : List (List StreamIndex))
    (s : StreamIndex) : List (List StreamIndex) :=
  table.set s (s :: (children s).flatMap fun c => table[c]?.getD [])

/-- The subtree of every stream, from a walk that finishes children before parents. -/
def subtreeTable (children : StreamIndex → List StreamIndex) (n : Nat)
    (postorder : List StreamIndex) : List (List StreamIndex) :=
  postorder.foldl (addSubtree children) (List.replicate n [])

end JoinAssembly
