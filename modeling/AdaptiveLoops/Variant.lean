/-
Variants: a candidate of a region that is in use.

A variant keeps the statement tree of every policy and rank it was asked
for, in the order they were built, and counts its launches. A tree is built
once; a place in the list tells two equal trees apart.
-/
import AdaptiveLoops.Dispatch
import AdaptiveLoops.Statement.Build
import AdaptiveLoops.Stats

namespace AdaptiveLoops

open Device (Stream)

structure PreparedTree where
  policy : Policy
  rank : Nat
  tree : Statement

structure Variant where
  site : CallSite
  index : Nat
  policy : Policy
  trees : List PreparedTree
  launches : Nat

namespace Variant

/-- Refused for a device policy once the stream is shut down. -/
def instantiate (site : CallSite) (index : Nat) (policy : Policy) (stream : Stream) :
    Except LoopError Variant :=
  if policy.isDevice ∧ stream.closed = true then .error .streamClosed
  else .ok ⟨site, index, policy, [], 0⟩

def label (v : Variant) : String :=
  v.site.text ++ "#" ++ Nat.repr v.index

def hasLaunched (v : Variant) : Bool :=
  0 < v.launches

/-- The place of the tree for a policy and a rank. -/
def placeOf? (v : Variant) (policy : Policy) (rank : Nat) : Option Nat :=
  v.trees.findIdx? fun t => t.policy == policy && t.rank == rank

/-- The tree for a policy at the rank of a space, with its place; it is built if it is not there. -/
def tree (v : Variant) (policy : Policy) (space : IterationSpace) :
    Variant × Except LoopError (Nat × Statement) :=
  match v.placeOf? policy space.rank with
  | some place => (v, .ok (place, ((v.trees[place]?).map (·.tree)).getD default))
  | none =>
    match Statement.build space policy with
    | .error e => (v, .error e)
    | .ok tree =>
      ({ v with trees := v.trees ++ [⟨policy, space.rank, tree⟩] }, .ok (v.trees.length, tree))

def recordLaunch (v : Variant) : Variant :=
  { v with launches := v.launches + 1 }

/-- Runs a loop under `policy`. A launch counts once its tree is there. -/
def issue (v : Variant) (policy : Policy) (stream : Stream) (space : IterationSpace)
    (body : Body) (now : Moment) : Variant × Execution :=
  match v.tree policy space with
  | (v, .error e) => (v, ⟨stream, none, .error e⟩)
  | (v, .ok (_, tree)) => (v.recordLaunch, tree.execute stream policy space body now)

/-- Runs a loop under the variant's policy. -/
def launch (v : Variant) (stream : Stream) (space : IterationSpace) (body : Body)
    (now : Moment) : Variant × Execution :=
  v.issue v.policy stream space body now

/-- Runs a loop under the synchronous form of the variant's policy. -/
def launchSynchronously (v : Variant) (stream : Stream) (space : IterationSpace) (body : Body)
    (now : Moment) : Variant × Execution :=
  v.issue v.policy.synchronous stream space body now

/-- The ranks that have a tree under the variant's own policy, in increasing order. -/
def preparedRanks (v : Variant) : List Nat :=
  ((v.trees.filter fun t => t.policy == v.policy).map (·.rank)).mergeSort

def info (v : Variant) : VariantInfo :=
  ⟨v.index, v.policy, v.launches, v.preparedRanks⟩

end Variant

end AdaptiveLoops
