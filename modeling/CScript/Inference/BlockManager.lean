import CScript.Lib.Locks
import CScript.Lib.Run
import Mathlib.Data.List.Count
import Mathlib.Algebra.Group.Nat.Defs

/-!
# The blocks of the key and value store

Threads that allocate, share and free blocks under the two locks of `BlockManager`, one step for
each lock that is taken or given back. What a thread does with the guarded data it does in the step
in which it takes the lock.
-/
namespace CScript.Blocks

open Lib

structure PhysicalBlock where
  blockId : Nat
  blockSize : Nat
  refCount : Nat
  deriving DecidableEq

inductive Lock where
  | freeBlocks
  | allocated
  deriving DecidableEq

inductive Call where
  | allocateBlock
  | shareBlock (id : Nat)
  | freeBlock (id : Nat)
  deriving DecidableEq

/-- Where a thread is. -/
inductive Place where
  | idle
  /-- Unwound out of a call. -/
  | panicked
  /-- `allocate_block`, at its first lock. -/
  | allocating
  /-- No block was free. -/
  | refused
  /-- With a block out of the free list, at the second lock. -/
  | popped (id : Nat)
  | inserted (id : Nat)
  /-- The second lock is given back. -/
  | inserting (id : Nat)
  | sharing (id : Nat)
  | freeing (id : Nat)
  /-- With a block out of the map, at the lock of the free list. -/
  | removed (id : Nat)
  | pushed (id : Nat)
  /-- At the end of `share_block` or `free_block`. -/
  | settled
  deriving DecidableEq

def Place.start : Call → Place
  | .allocateBlock => .allocating
  | .shareBlock id => .sharing id
  | .freeBlock id => .freeing id

def Place.waits : Place → Option Lock
  | .allocating | .removed _ => some .freeBlocks
  | .popped _ | .sharing _ | .freeing _ => some .allocated
  | _ => none

def Place.holds : Place → Lock → Bool
  | .refused, .freeBlocks | .popped _, .freeBlocks | .inserting _, .freeBlocks => true
  | .inserted _, _ | .pushed _, _ => true
  | .removed _, .allocated | .settled, .allocated => true
  | _, _ => false

/-- No call is in progress. -/
def Place.resting (p : Place) : Prop := p = .idle ∨ p = .panicked

/-- What a step does to a block, in the words of the three calls. Sharing or freeing a block
that is not allocated does nothing. -/
inductive Change where
  | allocated (id : Nat)
  | shared (id : Nat)
  | freed (id : Nat)
  deriving DecidableEq

/-- The `BlockManager` and the threads that use it. -/
structure Manager (T : Type) where
  blockSize : Nat
  freeBlocks : List Nat
  allocated : Nat → Option PhysicalBlock
  holder : Lock → Option T
  poisoned : Lock → Bool
  place : T → Place

variable {T : Type} [DecidableEq T]

namespace Manager

def new (numTotalBlocks blockSize : Nat) : Manager T where
  blockSize := blockSize
  freeBlocks := List.range numTotalBlocks
  allocated := fun _ => none
  holder := fun _ => none
  poisoned := fun _ => false
  place := fun _ => .idle

def goTo (m : Manager T) (t : T) (p : Place) : Manager T :=
  { m with place := Function.update m.place t p }

def take (m : Manager T) (l : Lock) (t : T) : Manager T :=
  { m with holder := Function.update m.holder l (some t) }

def release (m : Manager T) (l : Lock) : Manager T :=
  { m with holder := Function.update m.holder l none }

/-- A panic, which poisons the locks that the thread holds. -/
def unwind (m : Manager T) (t : T) : Manager T :=
  { m with
    holder := fun l => if m.holder l = some t then none else m.holder l
    poisoned := fun l => m.poisoned l || m.holder l == some t
    place := Function.update m.place t .panicked }

abbrev Outcome (T : Type) := Manager T × Option Change

/-- `lock().unwrap()`, which waits for the lock, and what is done under it. -/
def lock (m : Manager T) (l : Lock) (t : T) (under : Manager T → Outcome T) : Option (Outcome T) :=
  if m.holder l = none then
    some (if m.poisoned l then ((m.take l t).unwind t, none) else under (m.take l t))
  else none

def popFront (m : Manager T) (t : T) : Outcome T :=
  match m.freeBlocks with
  | [] => (m.goTo t .refused, none)
  | id :: rest => ({ m with freeBlocks := rest }.goTo t (.popped id), none)

def setBlock (m : Manager T) (id : Nat) (block : Option PhysicalBlock) : Manager T :=
  { m with allocated := Function.update m.allocated id block }

def insert (m : Manager T) (t : T) (id : Nat) : Outcome T :=
  ((m.setBlock id (some ⟨id, m.blockSize, 1⟩)).goTo t (.inserted id), some (.allocated id))

variable (checks : Bool)

/-- `ref_count += 1` on 64 bits, in a build with or without overflow checks. -/
def increment (m : Manager T) (t : T) (id : Nat) : Outcome T :=
  match m.allocated id with
  | none => (m.goTo t .settled, none)
  | some block =>
      if checks = true ∧ block.refCount + 1 = 2 ^ 64 then (m.unwind t, none)
      else
        let shared := { block with refCount := (block.refCount + 1) % 2 ^ 64 }
        ((m.setBlock id (some shared)).goTo t .settled, some (.shared id))

def decrement (m : Manager T) (t : T) (id : Nat) : Outcome T :=
  match m.allocated id with
  | none => (m.goTo t .settled, none)
  | some block =>
      if 1 < block.refCount then
        let freed := { block with refCount := block.refCount - 1 }
        ((m.setBlock id (some freed)).goTo t .settled, some (.freed id))
      else ((m.setBlock id none).goTo t (.removed id), some (.freed id))

def pushBack (m : Manager T) (t : T) (id : Nat) : Outcome T :=
  ({ m with freeBlocks := m.freeBlocks ++ [id] }.goTo t (.pushed id), none)

/-- A thread goes on to its next lock, or gives one back. -/
def advance (m : Manager T) (t : T) : Option (Outcome T) :=
  match m.place t with
  | .idle | .panicked => none
  | .allocating => m.lock .freeBlocks t fun m => m.popFront t
  | .popped id => m.lock .allocated t fun m => m.insert t id
  | .inserted id => some ((m.release .allocated).goTo t (.inserting id), none)
  | .refused | .inserting _ => some ((m.release .freeBlocks).goTo t .idle, none)
  | .sharing id => m.lock .allocated t fun m => m.increment checks t id
  | .freeing id => m.lock .allocated t fun m => m.decrement t id
  | .removed id => m.lock .freeBlocks t fun m => m.pushBack t id
  | .pushed _ => some ((m.release .freeBlocks).goTo t .settled, none)
  | .settled => some ((m.release .allocated).goTo t .idle, none)

/-- A thread between two calls begins one. -/
def begin (m : Manager T) (t : T) (call : Call) : Option (Outcome T) :=
  if m.place t = .idle then some (m.goTo t (.start call), none) else none

def locking (m : Manager T) : Locking T Lock where
  holder := m.holder
  waits t := (m.place t).waits

def Quiet (m : Manager T) : Prop := ∀ t, (m.place t).resting

end Manager

/-! ## Runs -/

/-- A manager with all that was done to its blocks so far. -/
structure Observed (T : Type) where
  manager : Manager T
  changes : List Change

inductive Action where
  | begin (call : Call)
  | advance

variable (checks : Bool)

def Observed.step (s : Observed T) (e : T × Action) : Option (Observed T) :=
  let outcome := match e.2 with
    | .begin call => s.manager.begin e.1 call
    | .advance => s.manager.advance checks e.1
  outcome.map fun (m, change) => ⟨m, s.changes ++ change.toList⟩

def Observed.new (numTotalBlocks blockSize : Nat) : Observed T :=
  ⟨.new numTotalBlocks blockSize, []⟩

end CScript.Blocks
