import JoinAssembly.Assembler.Pass

/-!
# Partitions

Every partition of a join has an assembler of its own over the same tree. The assembler is made when
its partition is first used, and lives until the partition is removed.
-/

namespace JoinAssembly

structure Partitions (κ ε : Type) where
  tree : JoinTree
  options : AssemblyOptions
  /-- The assemblers of the live partitions. -/
  live : List (κ × Assembler ε)

/-- The outcome of a pass in a partition. -/
structure PartitionPass (κ ε : Type) where
  partitions : Partitions κ ε
  rows : Except AssemblyError (RowCollection ε)
  log : List LogRecord

namespace Partitions

variable {κ ε : Type}

def new (tree : JoinTree) (options : AssemblyOptions) : Partitions κ ε :=
  ⟨tree, options, []⟩

def size (p : Partitions κ ε) : Nat := p.live.length

def isEmpty (p : Partitions κ ε) : Bool := p.live.isEmpty

variable [DecidableEq κ]

def assembler? (p : Partitions κ ε) (key : κ) : Option (Assembler ε) := p.live.lookup key

def contains (p : Partitions κ ε) (key : κ) : Bool := (p.assembler? key).isSome

/-- The number of passes that succeeded in a partition, if it is live. -/
def passes? (p : Partitions κ ε) (key : κ) : Option Nat := (p.assembler? key).map (·.passes)

/-- The assembler of a partition, a new one if the partition is not live. -/
def assemblerFor (p : Partitions κ ε) (key : κ) : Assembler ε :=
  (p.assembler? key).getD (.new p.tree p.options)

/-- Put an assembler in place of the one a partition had. -/
def put (p : Partitions κ ε) (key : κ) (a : Assembler ε) : Partitions κ ε :=
  { p with live := (key, a) :: p.live.filter fun entry => entry.1 ≠ key }

/-- Run a pass in a partition, which then is live even if the pass fails. -/
def run [DecidableEq ε] (p : Partitions κ ε) (key : κ) (m : MatchSets ε) : PartitionPass κ ε :=
  let created : List LogRecord :=
    if p.contains key then [] else [⟨.debug, "Assembly partition created"⟩]
  let outcome := (p.assemblerFor key).run m
  ⟨p.put key outcome.assembler, outcome.rows, created ++ outcome.log 0⟩

/-- Remove a partition, and tell whether it was live. -/
def remove (p : Partitions κ ε) (key : κ) : Bool × Partitions κ ε :=
  (p.contains key, { p with live := p.live.filter fun entry => entry.1 ≠ key })

/-! ### Looking partitions up -/

private theorem lookup_cons_if (entry : κ × Assembler ε) (l : List (κ × Assembler ε)) (key : κ) :
    (entry :: l).lookup key = if key = entry.1 then some entry.2 else l.lookup key := by
  obtain ⟨k, a⟩ := entry
  by_cases h : key = k
  · simp [h]
  · have hb : (key == k) = false := by simp [h]
    simp [List.lookup_cons, h, hb]

private theorem lookup_filter_ne (l : List (κ × Assembler ε)) (key other : κ) :
    (l.filter fun entry => entry.1 ≠ key).lookup other =
      if other = key then none else l.lookup other := by
  induction l with
  | nil => simp
  | cons entry rest ih =>
    rw [List.filter_cons, lookup_cons_if]
    split
    · rw [lookup_cons_if, ih]
      grind
    · rw [ih]
      grind

@[simp] theorem assembler?_put (p : Partitions κ ε) (key other : κ) (a : Assembler ε) :
    (p.put key a).assembler? other = if other = key then some a else p.assembler? other := by
  rw [assembler?, put, lookup_cons_if, lookup_filter_ne, assembler?]
  grind

@[simp] theorem assembler?_remove (p : Partitions κ ε) (key other : κ) :
    (p.remove key).2.assembler? other = if other = key then none else p.assembler? other :=
  lookup_filter_ne p.live key other

end Partitions

end JoinAssembly
