import CScript.Inference.BlockManager
import CScript.Lib.Sequence

/-!
# The accounts of the blocks

Every block is in the free list, in the map, or in the hands of the one thread that carries it from
one to the other. With that the partition is kept by every step; the lock order is not.
-/
namespace CScript.Blocks

open Lib

/-! ## The claim of the accounts -/

/-- How often a block was shared and freed since it was last allocated. -/
structure Tally where
  shares : Nat
  frees : Nat
  deriving DecidableEq

/-- All that is held of the block is given back. -/
def Tally.Settled (c : Tally) : Prop := c.frees = 1 + c.shares

def tallyStep (id : Nat) (c : Option Tally) : Change → Option Tally
  | .allocated i => if i = id then some ⟨0, 0⟩ else c
  | .shared i => if i = id then c.map fun c => { c with shares := c.shares + 1 } else c
  | .freed i => if i = id then c.map fun c => { c with frees := c.frees + 1 } else c

def tally (id : Nat) (changes : List Change) : Option Tally := changes.foldl (tallyStep id) none

variable {T : Type} [DecidableEq T]

/-- What is promised in every state that is reached. -/
structure Accounts (numTotalBlocks : Nat) (s : Observed T) : Prop where
  /-- The free list and the map share out the blocks. -/
  partition : s.manager.Quiet → s.manager.freeBlocks.Nodup ∧ ∀ id,
    (id < numTotalBlocks ↔ id ∈ s.manager.freeBlocks ∨ (s.manager.allocated id).isSome) ∧
    ¬ (id ∈ s.manager.freeBlocks ∧ (s.manager.allocated id).isSome)
  /-- A block is allocated for as long as there are less frees than one and its shares. -/
  outstanding : ∀ id, (s.manager.allocated id).isSome ↔
    ∃ c, tally id s.changes = some c ∧ c.frees < 1 + c.shares
  /-- It is free again not before there are so many, -/
  notBefore : ∀ id ∈ s.manager.freeBlocks, ∀ c, tally id s.changes = some c → c.Settled
  /-- and then it is. -/
  returned : s.manager.Quiet → ∀ id < numTotalBlocks, ∀ c, tally id s.changes = some c →
    c.Settled → id ∈ s.manager.freeBlocks
  live : ¬ s.manager.locking.Deadlocked

/-- No thread takes its first lock of two while another one holds the other lock and is on its way
to the first; and no count of references is at its last value as it is raised. -/
def InOrder (s : Observed T) (e : T × Action) : Prop :=
  e.2 = .advance → match s.manager.place e.1 with
    | .allocating => s.manager.freeBlocks ≠ [] → ∀ t id, s.manager.place t ≠ .removed id
    | .freeing id => ∀ block, s.manager.allocated id = some block → block.refCount ≤ 1 →
        ∀ t i, s.manager.place t ≠ .popped i
    | .sharing id => ∀ block, s.manager.allocated id = some block → block.refCount + 1 < 2 ^ 64
    | _ => True

/-! ## What the steps keep -/

/-- A thread carries a block at a place. -/
def Manager.At (m : Manager T) (p : Place) : Prop := ∃ t, m.place t = p

open Classical in
/-- In how many of the four a block is. -/
noncomputable def Manager.locations (m : Manager T) (id : Nat) : Nat :=
  m.freeBlocks.count id + (if (m.allocated id).isSome then 1 else 0) +
    (if m.At (.popped id) then 1 else 0) + (if m.At (.removed id) then 1 else 0)

/-- The count of references of an allocated block is what its tally leaves of it. -/
def Balanced (block : Option PhysicalBlock) (c : Option Tally) : Prop :=
  match block with
  | some block => 0 < block.refCount ∧ ∃ t, c = some t ∧ block.refCount + t.frees = 1 + t.shares
  | none => ∀ t, c = some t → t.Settled

structure Kept (numTotalBlocks : Nat) (s : Observed T) : Prop where
  held : ∀ l t, s.manager.holder l = some t ↔ (s.manager.place t).holds l = true
  sound : ∀ l, s.manager.poisoned l = false
  located : ∀ id, s.manager.locations id = if id < numTotalBlocks then 1 else 0
  balanced : ∀ id, Balanced (s.manager.allocated id) (tally id s.changes)
  ordered : ∀ a b, ¬ (s.manager.At (.popped a) ∧ s.manager.At (.removed b))

/-! ## What a step can do -/

/-- A thread goes to a place and holds there the locks that belong to it. -/
structure Moves (m : Manager T) (t : T) (p : Place) (m' : Manager T) : Prop where
  place : m'.place = Function.update m.place t p
  holder : ∀ l, m'.holder l =
    if p.holds l then some t else if (m.place t).holds l then none else m.holder l
  taken : ∀ l, p.holds l = true → (m.place t).holds l = false → m.holder l = none
  poisoned : m'.poisoned = m.poisoned

/-- At this place a thread has a block in its hands. -/
def Place.carries : Place → Bool
  | .popped _ | .removed _ => true
  | _ => false

/-- What happens to the blocks as a thread goes from one place to another. -/
inductive Effect (m m' : Manager T) : Place → Place → Option Change → Prop where
  | nothing {p p' : Place} (before : p.carries = false) (after : p'.carries = false)
      (free : m'.freeBlocks = m.freeBlocks) (map : m'.allocated = m.allocated) :
      Effect m m' p p' none
  | pop (id : Nat) (free : m.freeBlocks = id :: m'.freeBlocks) (map : m'.allocated = m.allocated) :
      Effect m m' .allocating (.popped id) none
  | insert (id : Nat) (block : PhysicalBlock) (fresh : block.refCount = 1)
      (free : m'.freeBlocks = m.freeBlocks)
      (map : m'.allocated = Function.update m.allocated id (some block)) :
      Effect m m' (.popped id) (.inserted id) (some (.allocated id))
  | share (id : Nat) (block shared : PhysicalBlock) (old : m.allocated id = some block)
      (count : shared.refCount = block.refCount + 1) (free : m'.freeBlocks = m.freeBlocks)
      (map : m'.allocated = Function.update m.allocated id (some shared)) :
      Effect m m' (.sharing id) .settled (some (.shared id))
  | release (id : Nat) (block freed : PhysicalBlock) (old : m.allocated id = some block)
      (many : 1 < block.refCount) (count : freed.refCount = block.refCount - 1)
      (free : m'.freeBlocks = m.freeBlocks)
      (map : m'.allocated = Function.update m.allocated id (some freed)) :
      Effect m m' (.freeing id) .settled (some (.freed id))
  | remove (id : Nat) (block : PhysicalBlock) (old : m.allocated id = some block)
      (last : block.refCount ≤ 1) (free : m'.freeBlocks = m.freeBlocks)
      (map : m'.allocated = Function.update m.allocated id none) :
      Effect m m' (.freeing id) (.removed id) (some (.freed id))
  | push (id : Nat) (free : m'.freeBlocks = m.freeBlocks ++ [id])
      (map : m'.allocated = m.allocated) :
      Effect m m' (.removed id) (.pushed id) none

/-- A lock that is not poisoned is taken if nobody holds it. -/
theorem Manager.lock_eq_some {m : Manager T} (sound : ∀ l, m.poisoned l = false) {l : Lock} {t : T}
    {under : Manager T → Outcome T} {o : Outcome T} :
    m.lock l t under = some o ↔
      m.holder l = none ∧ under (m.take l t) = o := by
  unfold Manager.lock
  rw [sound]
  by_cases free : m.holder l = none
  · rw [if_pos free, if_neg Bool.false_ne_true, Option.some_inj, and_iff_right free]
  · rw [if_neg free]
    exact iff_of_false (fun h => nomatch h) (fun h => free h.1)

variable {m m' : Manager T} {t : T} {checks : Bool} {change : Option Change}

/-- The step of a thread that has taken a lock. -/
theorem Moves.of_lock {l : Lock} {p : Place} (free : m.holder l = none)
    (goes : m'.place = Function.update m.place t p)
    (keeps : m'.holder = Function.update m.holder l (some t)) (same : m'.poisoned = m.poisoned)
    (gains : ∀ k, p.holds k = (k == l || (m.place t).holds k))
    (held : ∀ k, (m.place t).holds k = true → m.holder k = some t) : Moves m t p m' := by
  refine ⟨goes, ?_, ?_, same⟩
  · intro k
    rw [keeps, gains]
    by_cases same : k = l
    · subst same
      rw [Function.update_self, beq_self_eq_true, Bool.true_or, if_pos rfl]
    · rw [Function.update_of_ne same, beq_false_of_ne same, Bool.false_or]
      cases has : (m.place t).holds k with
      | true => rw [if_pos rfl, held k has]
      | false => rw [if_neg Bool.false_ne_true, if_neg Bool.false_ne_true]
  · intro k now before
    rw [gains, before, Bool.or_false, beq_iff_eq] at now
    rw [now]
    exact free

/-- The step of a thread that gives a lock back. -/
theorem Moves.of_release {l : Lock} {p : Place} (goes : m'.place = Function.update m.place t p)
    (keeps : m'.holder = Function.update m.holder l none) (same : m'.poisoned = m.poisoned)
    (has : (m.place t).holds l = true)
    (loses : ∀ k, p.holds k = (k != l && (m.place t).holds k))
    (held : ∀ k, (m.place t).holds k = true → m.holder k = some t) : Moves m t p m' := by
  refine ⟨goes, ?_, ?_, same⟩
  · intro k
    rw [keeps, loses]
    by_cases same : k = l
    · subst same
      rw [Function.update_self, bne_self_eq_false, Bool.false_and, if_neg Bool.false_ne_true, has,
        if_pos rfl]
    · rw [Function.update_of_ne same, bne_iff_ne.mpr same, Bool.true_and]
      cases has : (m.place t).holds k with
      | true => rw [if_pos rfl, held k has]
      | false => rw [if_neg Bool.false_ne_true, if_neg Bool.false_ne_true]
  · intro k now before
    rw [loses, before, Bool.and_false] at now
    cases now

/-- What a step does. -/
abbrev Does (m : Manager T) (t : T) (o : Manager.Outcome T) : Prop :=
  ∃ p, Moves m t p o.1 ∧ Effect m o.1 (m.place t) p o.2

section taken

variable (held : ∀ l, (m.place t).holds l = true → m.holder l = some t)
include held

theorem popFront_does (at_ : m.place t = .allocating) (free : m.holder .freeBlocks = none) :
    Does m t ((m.take .freeBlocks t).popFront t) := by
  unfold Manager.popFront
  split
  case h_1 queue =>
      refine ⟨.refused, .of_lock free rfl rfl rfl ?_ held, ?_⟩
      · rw [at_]
        rintro (_ | _) <;> rfl
      · rw [at_]
        exact .nothing rfl rfl rfl rfl
  case h_2 id rest queue =>
      refine ⟨.popped id, .of_lock free rfl rfl rfl ?_ held, ?_⟩
      · rw [at_]
        rintro (_ | _) <;> rfl
      · rw [at_]
        exact .pop id queue rfl

theorem insert_does {id : Nat} (at_ : m.place t = .popped id) (free : m.holder .allocated = none) :
    Does m t ((m.take .allocated t).insert t id) := by
  refine ⟨.inserted id, .of_lock free rfl rfl rfl ?_ held, ?_⟩
  · rw [at_]
    rintro (_ | _) <;> rfl
  · rw [at_]
    exact .insert id _ rfl rfl rfl

theorem settled_does {id : Nat} (at_ : m.place t = .sharing id ∨ m.place t = .freeing id)
    (free : m.holder .allocated = none) :
    Does m t (((m.take .allocated t).goTo t .settled), none) := by
  refine ⟨.settled, .of_lock free rfl rfl rfl ?_ held, .nothing ?_ rfl rfl rfl⟩
  · rcases at_ with at_ | at_
    · rw [at_]
      rintro (_ | _) <;> rfl
    · rw [at_]
      rintro (_ | _) <;> rfl
  · rcases at_ with at_ | at_
    · rw [at_]
      rfl
    · rw [at_]
      rfl

theorem increment_does {id : Nat} (at_ : m.place t = .sharing id)
    (free : m.holder .allocated = none)
    (small : ∀ block, m.allocated id = some block → block.refCount + 1 < 2 ^ 64) :
    Does m t ((m.take .allocated t).increment checks t id) := by
  unfold Manager.increment
  split
  case h_1 absent => exact settled_does held (.inl at_) free
  case h_2 block present =>
      have bound := small block present
      rw [if_neg (fun h => Nat.lt_irrefl _ (h.2 ▸ bound))]
      refine ⟨.settled, .of_lock free rfl rfl rfl ?_ held, ?_⟩
      · rw [at_]
        rintro (_ | _) <;> rfl
      · rw [at_]
        exact .share id block _ present (Nat.mod_eq_of_lt bound) rfl rfl

theorem decrement_does {id : Nat} (at_ : m.place t = .freeing id)
    (free : m.holder .allocated = none) :
    Does m t ((m.take .allocated t).decrement t id) := by
  unfold Manager.decrement
  split
  case h_1 absent => exact settled_does held (.inr at_) free
  case h_2 block present =>
      split
      case isTrue many =>
          refine ⟨.settled, .of_lock free rfl rfl rfl ?_ held, ?_⟩
          · rw [at_]
            rintro (_ | _) <;> rfl
          · rw [at_]
            exact .release id block _ present many rfl rfl rfl
      case isFalse last =>
          refine ⟨.removed id, .of_lock free rfl rfl rfl ?_ held, ?_⟩
          · rw [at_]
            rintro (_ | _) <;> rfl
          · rw [at_]
            exact .remove id block present (Nat.le_of_not_lt last) rfl rfl

theorem pushBack_does {id : Nat} (at_ : m.place t = .removed id)
    (free : m.holder .freeBlocks = none) :
    Does m t ((m.take .freeBlocks t).pushBack t id) := by
  refine ⟨.pushed id, .of_lock free rfl rfl rfl ?_ held, ?_⟩
  · rw [at_]
    rintro (_ | _) <;> rfl
  · rw [at_]
    exact .push id rfl rfl

/-- A lock is given back between two places at which a thread carries nothing. -/
theorem release_does {l : Lock} {p q : Place} (at_ : m.place t = q) (has : q.holds l = true)
    (loses : ∀ k, p.holds k = (k != l && q.holds k)) (before : q.carries = false)
    (after : p.carries = false) : Does m t ((m.release l).goTo t p, none) := by
  subst at_
  exact ⟨p, .of_release rfl rfl rfl has loses held, .nothing before after rfl rfl⟩

/-- What `advance` can do in a state whose locks are not poisoned. -/
theorem advance_does (sound : ∀ l, m.poisoned l = false)
    (small : ∀ id block, m.place t = .sharing id → m.allocated id = some block →
      block.refCount + 1 < 2 ^ 64) {o : Manager.Outcome T}
    (step : m.advance checks t = some o) : Does m t o := by
  unfold Manager.advance at step
  split at step
  case h_1 | h_2 => cases step
  case h_3 at_ =>
      obtain ⟨free, rfl⟩ := (Manager.lock_eq_some sound).mp step
      exact popFront_does held at_ free
  case h_4 id at_ =>
      obtain ⟨free, rfl⟩ := (Manager.lock_eq_some sound).mp step
      exact insert_does held at_ free
  case h_5 id at_ =>
      cases step
      exact release_does held at_ rfl (by rintro (_ | _) <;> rfl) rfl rfl
  case h_6 at_ =>
      cases step
      exact release_does held at_ rfl (by rintro (_ | _) <;> rfl) rfl rfl
  case h_7 id at_ =>
      cases step
      exact release_does held at_ rfl (by rintro (_ | _) <;> rfl) rfl rfl
  case h_8 id at_ =>
      obtain ⟨free, rfl⟩ := (Manager.lock_eq_some sound).mp step
      exact increment_does held at_ free fun block => small id block at_
  case h_9 id at_ =>
      obtain ⟨free, rfl⟩ := (Manager.lock_eq_some sound).mp step
      exact decrement_does held at_ free
  case h_10 id at_ =>
      obtain ⟨free, rfl⟩ := (Manager.lock_eq_some sound).mp step
      exact pushBack_does held at_ free
  case h_11 id at_ =>
      cases step
      exact release_does held at_ rfl (by rintro (_ | _) <;> rfl) rfl rfl
  case h_12 at_ =>
      cases step
      exact release_does held at_ rfl (by rintro (_ | _) <;> rfl) rfl rfl

end taken

theorem begin_does {call : Call} {o : Manager.Outcome T} (step : m.begin t call = some o) :
    Does m t o := by
  unfold Manager.begin at step
  split at step
  case isTrue at_ =>
      cases step
      refine ⟨.start call, ⟨rfl, ?_, ?_, rfl⟩, ?_⟩
      · intro l
        rw [at_]
        cases call <;> cases l <;> rfl
      · intro l holds
        cases call <;> cases l <;> cases holds
      · rw [at_]
        refine .nothing rfl ?_ rfl rfl
        cases call <;> rfl
  case isFalse => cases step

/-! ## One step -/

/-- The thread that holds a lock is the one whose place says so. -/
abbrev Manager.Held (m : Manager T) : Prop :=
  ∀ l u, m.holder l = some u ↔ (m.place u).holds l = true

variable {p : Place}

theorem Moves.held (moves : Moves m t p m') (held : m.Held) : m'.Held := by
  intro l u
  rw [moves.place, moves.holder]
  by_cases same : u = t
  · subst same
    rw [Function.update_self]
    cases now : p.holds l with
    | true => simp only [if_true]
    | false =>
        rw [if_neg Bool.false_ne_true]
        cases before : (m.place u).holds l with
        | true => simp only [if_true, reduceCtorEq]
        | false =>
            rw [if_neg Bool.false_ne_true, held, before]
  · rw [Function.update_of_ne same, ← held l u]
    cases before : (m.place t).holds l with
    | true =>
        have mine := (held l t).mpr before
        rw [mine, if_pos rfl]
        have other : some t ≠ some u := fun h => same (Option.some.inj h).symm
        apply iff_of_false _ other
        split
        · exact other
        · exact fun h => nomatch h
    | false =>
        rw [if_neg Bool.false_ne_true]
        cases now : p.holds l with
        | true =>
            rw [if_pos rfl, moves.taken l now before]
            exact iff_of_false (fun h => same (Option.some.inj h).symm) (fun h => nomatch h)
        | false => rw [if_neg Bool.false_ne_true]

omit [DecidableEq T] in
/-- A place at which a lock is held has one thread at most. -/
theorem Manager.Held.unique (held : m.Held) {q : Place} {l : Lock} (has : q.holds l = true)
    {u v : T} (first : m.place u = q) (second : m.place v = q) : u = v := by
  have one := (held l u).mpr (first ▸ has)
  have two := (held l v).mpr (second ▸ has)
  exact Option.some.inj (one.symm.trans two)

theorem Moves.at_iff (moves : Moves m t p m') {q : Place} (before : m.place t ≠ q)
    (after : p ≠ q) : m'.At q ↔ m.At q := by
  unfold Manager.At
  rw [moves.place]
  apply exists_congr
  intro u
  by_cases same : u = t
  · subst same
    rw [Function.update_self]
    exact iff_of_false after before
  · rw [Function.update_of_ne same]

/-- Who is at a place already was, or has just come to it. -/
theorem Moves.at_before (moves : Moves m t p m') {q : Place} (now : m'.At q) (after : p ≠ q) :
    m.At q := by
  obtain ⟨u, there⟩ := now
  rw [moves.place] at there
  by_cases same : u = t
  · subst same
    rw [Function.update_self] at there
    exact absurd there after
  · rw [Function.update_of_ne same] at there
    exact ⟨u, there⟩

theorem Moves.at_new (moves : Moves m t p m') : m'.At p :=
  ⟨t, by rw [moves.place, Function.update_self]⟩

theorem Moves.not_at_old (moves : Moves m t p m') (held : m.Held) {q : Place} {l : Lock}
    (has : q.holds l = true) (before : m.place t = q) (after : p ≠ q) : ¬ m'.At q := by
  rintro ⟨u, there⟩
  rw [moves.place] at there
  by_cases same : u = t
  · subst same
    rw [Function.update_self] at there
    exact after there
  · rw [Function.update_of_ne same] at there
    exact same (held.unique has there before)

theorem Place.ne_of_carries {p q : Place} (h : p.carries = false) (carries : q.carries = true) :
    p ≠ q := by
  rintro rfl
  cases h.symm.trans carries

theorem isSome_update {map : Nat → Option PhysicalBlock} {i : Nat} {block : PhysicalBlock}
    (old : map i = some block) (new : PhysicalBlock) (id : Nat) :
    (Function.update map i (some new) id).isSome = (map id).isSome := by
  by_cases same : id = i
  · rw [same, Function.update_self, old]
    rfl
  · rw [Function.update_of_ne same]

omit [DecidableEq T] in
open Classical in
theorem Manager.locations_congr {id : Nat} (free : m'.freeBlocks.count id = m.freeBlocks.count id)
    (map : (m'.allocated id).isSome = (m.allocated id).isSome)
    (popped : m'.At (.popped id) ↔ m.At (.popped id))
    (removed : m'.At (.removed id) ↔ m.At (.removed id)) : m'.locations id = m.locations id := by
  unfold Manager.locations
  simp only [free, map, popped, removed]

open Classical in
/-- A step moves a block from one of the four to another, if it moves one at all. -/
theorem Effect.locations {p q : Place} (effect : Effect m m' q p change) (moves : Moves m t p m')
    (at_ : m.place t = q) (held : m.Held) (once : ∀ id, m.locations id ≤ 1) (id : Nat) :
    m'.locations id = m.locations id := by
  subst at_
  have others {q : Place} (before : m.place t ≠ q) (after : p ≠ q) := moves.at_iff before after
  generalize at_ : m.place t = q at effect others
  cases effect with
  | nothing before after free map =>
      apply Manager.locations_congr
      · rw [free]
      · rw [map]
      · exact others (Place.ne_of_carries before rfl) (Place.ne_of_carries after rfl)
      · exact others (Place.ne_of_carries before rfl) (Place.ne_of_carries after rfl)
  | pop i free map =>
      have removed := @others (.removed id) (fun h => nomatch h) (fun h => nomatch h)
      by_cases same : i = id
      · subst same
        have one := once i
        unfold Manager.locations at one ⊢
        rw [free, List.count_cons_self] at one ⊢
        simp only [moves.at_new, if_true, map, removed]
        split_ifs at one ⊢ <;> omega
      · have popped := @others (.popped id) (fun h => nomatch h)
          (fun h => same (Place.popped.inj h))
        apply Manager.locations_congr _ (by rw [map]) popped removed
        rw [free, List.count_cons_of_ne same]
  | insert i block fresh free map =>
      have removed := @others (.removed id) (fun h => nomatch h) (fun h => nomatch h)
      by_cases same : i = id
      · subst same
        have one := once i
        have gone := moves.not_at_old held (q := .popped i) (l := .freeBlocks) rfl at_
          (fun h => nomatch h)
        have here : m.At (.popped i) := ⟨t, at_⟩
        unfold Manager.locations at one ⊢
        simp only [here, gone, map, free, removed, Function.update_self, Option.isSome_some,
          if_true, if_false] at one ⊢
        split_ifs at one ⊢ <;> omega
      · have popped := @others (.popped id) (fun h => same (Place.popped.inj h))
          (fun h => nomatch h)
        apply Manager.locations_congr (by rw [free]) _ popped removed
        rw [map, Function.update_of_ne (Ne.symm same)]
  | share i block shared old count free map =>
      apply Manager.locations_congr (by rw [free])
      · rw [map, isSome_update old]
      · exact others (fun h => nomatch h) (fun h => nomatch h)
      · exact others (fun h => nomatch h) (fun h => nomatch h)
  | release i block freed old many count free map =>
      apply Manager.locations_congr (by rw [free])
      · rw [map, isSome_update old]
      · exact others (fun h => nomatch h) (fun h => nomatch h)
      · exact others (fun h => nomatch h) (fun h => nomatch h)
  | remove i block old last free map =>
      have popped := @others (.popped id) (fun h => nomatch h) (fun h => nomatch h)
      by_cases same : i = id
      · subst same
        have one := once i
        unfold Manager.locations at one ⊢
        simp only [moves.at_new, map, free, popped, old, Function.update_self, Option.isSome_some,
          Option.isSome_none, if_true, Bool.false_eq_true, if_false] at one ⊢
        split_ifs at one ⊢ <;> omega
      · have removed := @others (.removed id) (fun h => nomatch h)
          (fun h => same (Place.removed.inj h))
        apply Manager.locations_congr (by rw [free]) _ popped removed
        rw [map, Function.update_of_ne (Ne.symm same)]
  | push i free map =>
      have popped := @others (.popped id) (fun h => nomatch h) (fun h => nomatch h)
      by_cases same : i = id
      · subst same
        have gone := moves.not_at_old held (q := .removed i) (l := .allocated) rfl at_
          (fun h => nomatch h)
        have here : m.At (.removed i) := ⟨t, at_⟩
        unfold Manager.locations
        simp only [here, gone, map, free, popped, List.count_append, List.count_singleton_self,
          if_true, if_false]
        omega
      · have removed := @others (.removed id) (fun h => same (Place.removed.inj h))
          (fun h => nomatch h)
        apply Manager.locations_congr _ (by rw [map]) popped removed
        rw [free, List.count_append, List.count_singleton, beq_false_of_ne same]
        rfl

theorem tally_append (id : Nat) (changes : List Change) (c : Change) :
    tally id (changes ++ [c]) = tallyStep id (tally id changes) c := by
  unfold tally
  rw [List.foldl_append]
  rfl

def Change.block : Change → Nat
  | .allocated id | .shared id | .freed id => id

/-- What is done to one block is not done to another. -/
theorem tallyStep_of_ne {id : Nat} {c : Change} (h : c.block ≠ id) (old : Option Tally) :
    tallyStep id old c = old := by
  cases c <;> exact if_neg h

omit [DecidableEq T] in
/-- It is enough to look at the one block that changes. -/
theorem balanced_of_change {changes : List Change} {c : Change} {block : Option PhysicalBlock}
    (before : ∀ id, Balanced (m.allocated id) (tally id changes))
    (map : m'.allocated = Function.update m.allocated c.block block)
    (there : Balanced block (tallyStep c.block (tally c.block changes) c)) (id : Nat) :
    Balanced (m'.allocated id) (tally id (changes ++ [c])) := by
  rw [tally_append, map]
  by_cases same : c.block = id
  · subst same
    rw [Function.update_self]
    exact there
  · rw [Function.update_of_ne (Ne.symm same), tallyStep_of_ne same]
    exact before id

omit [DecidableEq T] in
/-- A step counts what it does. -/
theorem Effect.balanced {q : Place} (effect : Effect m m' q p change) {changes : List Change}
    (before : ∀ id, Balanced (m.allocated id) (tally id changes)) (id : Nat) :
    Balanced (m'.allocated id) (tally id (changes ++ change.toList)) := by
  cases effect with
  | nothing _ _ free map | pop _ free map | push _ free map =>
      rw [Option.toList_none, List.append_nil, map]
      exact before id
  | insert i block fresh free map =>
      apply balanced_of_change before map
      refine ⟨by omega, ⟨0, 0⟩, if_pos rfl, ?_⟩
      rw [fresh]
  | share i block shared old count free map =>
      apply balanced_of_change before map
      have there := before i
      rw [old] at there
      obtain ⟨positive, c, tallied, sum⟩ := there
      refine ⟨by omega, { c with shares := c.shares + 1 }, ?_, ?_⟩
      · exact (if_pos rfl).trans (congrArg (Option.map _) tallied)
      · dsimp only
        omega
  | release i block freed old many count free map =>
      apply balanced_of_change before map
      have there := before i
      rw [old] at there
      obtain ⟨positive, c, tallied, sum⟩ := there
      refine ⟨by omega, { c with frees := c.frees + 1 }, ?_, ?_⟩
      · exact (if_pos rfl).trans (congrArg (Option.map _) tallied)
      · dsimp only
        omega
  | remove i block old last free map =>
      apply balanced_of_change before map
      have there := before i
      rw [old] at there
      obtain ⟨positive, c, tallied, sum⟩ := there
      intro after counted
      have known := (if_pos rfl).trans (congrArg (Option.map _) tallied) |>.symm.trans counted
      cases known
      unfold Tally.Settled
      dsimp only
      omega

/-- Two threads do not come to carry blocks in opposite directions. -/
theorem Effect.ordered {q : Place} (effect : Effect m m' q p change) (moves : Moves m t p m')
    (before : ∀ a b, ¬ (m.At (.popped a) ∧ m.At (.removed b)))
    (pops : q = .allocating → m.freeBlocks ≠ [] → ∀ id, ¬ m.At (.removed id))
    (removes : ∀ id block, q = .freeing id → m.allocated id = some block → block.refCount ≤ 1 →
      ∀ i, ¬ m.At (.popped i)) (a b : Nat) : ¬ (m'.At (.popped a) ∧ m'.At (.removed b)) := by
  rintro ⟨popped, removed⟩
  cases effect with
  | nothing _ after _ _ =>
      apply before a b
      constructor
      · exact moves.at_before popped (Place.ne_of_carries after rfl)
      · exact moves.at_before removed (Place.ne_of_carries after rfl)
  | pop i free map =>
      apply pops rfl _ b
      · exact moves.at_before removed (fun h => nomatch h)
      · rw [free]
        exact List.cons_ne_nil _ _
  | remove i block old last free map =>
      exact removes i block rfl old last a (moves.at_before popped (fun h => nomatch h))
  | insert | share | release | push =>
      apply before a b
      constructor
      · exact moves.at_before popped (fun h => nomatch h)
      · exact moves.at_before removed (fun h => nomatch h)

/-- How far a thread is from going on by itself. -/
def Place.rank : Place → Nat
  | .allocating | .sharing _ | .freeing _ => 2
  | .popped _ | .removed _ => 1
  | _ => 0

theorem Place.rank_le_one {p : Place} {l : Lock} (has : p.holds l = true) : p.rank ≤ 1 := by
  cases p with
  | allocating | sharing | freeing => cases has
  | popped | removed => exact Nat.le_refl 1
  | _ => exact Nat.zero_le 1

/-- Whoever waits is farther from going on than the one it waits for, but for two that carry blocks
in opposite directions. -/
theorem Place.rank_lt {p q : Place} {l : Lock} (waits : p.waits = some l)
    (has : q.holds l = true) : q.rank < p.rank ∨
      (∃ a b, p = .popped a ∧ q = .removed b) ∨ (∃ a b, p = .removed a ∧ q = .popped b) := by
  cases p with
  | allocating | sharing | freeing =>
      left
      exact Nat.lt_succ_of_le (Place.rank_le_one has)
  | popped a =>
      cases waits
      cases q with
      | removed b => exact .inr (.inl ⟨a, b, rfl, rfl⟩)
      | inserted | pushed | settled => exact .inl Nat.zero_lt_one
      | _ => cases has
  | removed a =>
      cases waits
      cases q with
      | popped b => exact .inr (.inr ⟨a, b, rfl, rfl⟩)
      | refused | inserted | inserting | pushed => exact .inl Nat.zero_lt_one
      | _ => cases has
  | _ => cases waits

omit [DecidableEq T] in
/-- That is the only way for threads to wait for each other. -/
theorem deadlocked_iff (held : m.Held) :
    m.locking.Deadlocked ↔ ∃ a b, m.At (.popped a) ∧ m.At (.removed b) := by
  constructor
  · intro deadlocked
    by_contra ordered
    apply Locking.not_deadlocked_of_rank (fun t => (m.place t).rank) _ deadlocked
    rintro t u ⟨l, waits, holds⟩
    have lower := Place.rank_lt waits ((held l u).mp holds)
    rcases lower with lower | ⟨a, b, here, there⟩ | ⟨a, b, here, there⟩
    · exact lower
    · exact absurd ⟨a, b, ⟨t, here⟩, ⟨u, there⟩⟩ ordered
    · exact absurd ⟨b, a, ⟨u, there⟩, ⟨t, here⟩⟩ ordered
  · rintro ⟨a, b, ⟨t, here⟩, ⟨u, there⟩⟩
    apply Locking.deadlocked_of_pair (t := t) (u := u)
    · refine ⟨.allocated, congrArg Place.waits here, (held _ _).mpr ?_⟩
      rw [there]
      rfl
    · refine ⟨.freeBlocks, congrArg Place.waits there, (held _ _).mpr ?_⟩
      rw [here]
      rfl

/-! ## Runs -/

theorem Manager.begin_idle {call : Call} {o : Manager.Outcome T} (step : m.begin t call = some o) :
    m.place t = .idle := by
  unfold Manager.begin at step
  split at step
  case isTrue idle => exact idle
  case isFalse => cases step

theorem Kept.step {n : Nat} {s s' : Observed T} {e : T × Action} (kept : Kept n s)
    (inOrder : InOrder s e) (step : s.step checks e = some s') : Kept n s' := by
  obtain ⟨t, action⟩ := e
  have mine (l : Lock) (has : (s.manager.place t).holds l = true) : s.manager.holder l = some t :=
    (kept.held l t).mpr has
  obtain ⟨o, made, rfl⟩ := Option.map_eq_some_iff.mp step
  have does : Does s.manager t o := by
    cases action with
    | begin call => exact begin_does made
    | advance =>
        apply advance_does mine kept.sound _ made
        intro id block at_ present
        have small := inOrder rfl
        rw [at_] at small
        exact small block present
  obtain ⟨p, moves, effect⟩ := does
  have once (id : Nat) : s.manager.locations id ≤ 1 := by
    rw [kept.located]
    split <;> decide
  constructor
  · exact moves.held kept.held
  · intro l
    rw [moves.poisoned]
    exact kept.sound l
  · intro id
    rw [effect.locations moves rfl kept.held once]
    exact kept.located id
  · exact effect.balanced kept.balanced
  · apply effect.ordered moves kept.ordered
    · intro at_ some id
      cases action with
      | begin call => cases at_.symm.trans (Manager.begin_idle made)
      | advance =>
          have order := inOrder rfl
          rw [at_] at order
          rintro ⟨u, there⟩
          exact order some u id there
    · intro id block at_ present last i
      cases action with
      | begin call => cases at_.symm.trans (Manager.begin_idle made)
      | advance =>
          have order := inOrder rfl
          rw [at_] at order
          rintro ⟨u, there⟩
          exact order block present last u i there

theorem count_range (n id : Nat) : (List.range n).count id = if id < n then 1 else 0 := by
  rw [List.nodup_range.count]
  simp only [List.mem_range]

omit [DecidableEq T] in
theorem kept_new (n blockSize : Nat) : Kept n (.new n blockSize : Observed T) := by
  constructor
  · intro l t
    apply iff_of_false
    · exact fun h => nomatch h
    · exact fun h => nomatch h
  · intro l
    rfl
  · intro id
    have nowhere {p : Place} (h : p ≠ .idle) :
        ¬ (Observed.new n blockSize : Observed T).manager.At p := by
      rintro ⟨t, there⟩
      exact h there.symm
    unfold Manager.locations
    rw [if_neg (nowhere (p := .popped id) (fun h => (nomatch h))),
      if_neg (nowhere (p := .removed id) (fun h => (nomatch h)))]
    exact count_range n id
  · intro id c h
    cases h
  · rintro a b ⟨⟨t, there⟩, -⟩
    cases there

omit [DecidableEq T] in
/-- Between two calls no thread carries a block. -/
theorem Kept.located_of_quiet {n : Nat} {s : Observed T} (kept : Kept n s)
    (quiet : s.manager.Quiet) (id : Nat) : s.manager.freeBlocks.count id +
      (if (s.manager.allocated id).isSome then 1 else 0) = if id < n then 1 else 0 := by
  have empty {p : Place} (busy : ¬ p.resting) : ¬ s.manager.At p := by
    rintro ⟨t, there⟩
    exact busy (there ▸ quiet t)
  have all := kept.located id
  unfold Manager.locations at all
  rw [if_neg (empty (p := .popped id) (by rintro (h | h) <;> cases h)),
    if_neg (empty (p := .removed id) (by rintro (h | h) <;> cases h))] at all
  exact all

omit [DecidableEq T] in
theorem Kept.not_allocated {n : Nat} {s : Observed T} (kept : Kept n s) {id : Nat}
    (free : id ∈ s.manager.freeBlocks) : s.manager.allocated id = none := by
  have all := kept.located id
  have here : 0 < s.manager.freeBlocks.count id := List.count_pos_iff.mpr free
  cases present : s.manager.allocated id with
  | none => rfl
  | some block =>
      unfold Manager.locations at all
      rw [present, Option.isSome_some, if_pos rfl] at all
      split_ifs at all <;> omega

omit [DecidableEq T] in
theorem Kept.partition {n : Nat} {s : Observed T} (kept : Kept n s) (quiet : s.manager.Quiet)
    (id : Nat) : id < n ↔ id ∈ s.manager.freeBlocks ∨ (s.manager.allocated id).isSome := by
  have all := kept.located_of_quiet quiet id
  rw [← List.count_pos_iff]
  constructor
  · intro inRange
    rw [if_pos inRange] at all
    by_cases present : (s.manager.allocated id).isSome
    · exact .inr present
    · rw [if_neg present] at all
      left
      omega
  · intro located
    by_contra outside
    rw [if_neg outside] at all
    rcases located with free | present
    · omega
    · rw [if_pos present] at all
      omega

omit [DecidableEq T] in
theorem Kept.accounts {n : Nat} {s : Observed T} (kept : Kept n s) : Accounts n s := by
  constructor
  · intro quiet
    constructor
    · apply List.nodup_iff_count.mpr
      intro id
      have all := kept.located_of_quiet quiet id
      split_ifs at all <;> omega
    · intro id
      refine ⟨kept.partition quiet id, ?_⟩
      rintro ⟨free, present⟩
      rw [kept.not_allocated free] at present
      cases present
  · intro id
    have there := kept.balanced id
    cases present : s.manager.allocated id with
    | some block =>
        rw [present] at there
        obtain ⟨positive, c, tallied, sum⟩ := there
        exact iff_of_true rfl ⟨c, tallied, by omega⟩
    | none =>
        rw [present] at there
        apply iff_of_false (fun h => nomatch h)
        rintro ⟨c, tallied, less⟩
        exact Nat.ne_of_lt less (there c tallied)
  · intro id free c tallied
    have there := kept.balanced id
    rw [kept.not_allocated free] at there
    exact there c tallied
  · intro quiet id inRange c tallied settled
    apply ((kept.partition quiet id).mp inRange).resolve_right
    intro present
    have there := kept.balanced id
    obtain ⟨block, isBlock⟩ := Option.isSome_iff_exists.mp present
    rw [isBlock] at there
    obtain ⟨positive, c', tallied', sum⟩ := there
    cases tallied.symm.trans tallied'
    unfold Tally.Settled at settled
    omega
  · rw [deadlocked_iff kept.held]
    rintro ⟨a, b, both⟩
    exact kept.ordered a b both

/-- Every run in which each step is in order keeps the accounts. -/
theorem accounts_of_run (checks : Bool) (numTotalBlocks blockSize : Nat)
    (run : List (T × Action)) {s : Observed T}
    (inOrder : AllSteps (Observed.step checks) InOrder (.new numTotalBlocks blockSize) run)
    (reached : runFrom (Observed.step checks) (.new numTotalBlocks blockSize) run = some s) :
    Accounts numTotalBlocks s := by
  apply Kept.accounts
  refine invariant_of_run ?_ (kept_new numTotalBlocks blockSize) inOrder reached
  intro s e s' kept order step
  exact kept.step order step

/-- One thread that allocates a block and frees it. -/
def aloneRun : List (Unit × Action) :=
  [.begin .allocateBlock, .advance, .advance, .advance, .advance, .begin (.freeBlock 0), .advance,
    .advance, .advance, .advance].map ((), ·)

theorem inOrder_cons {s s' : Observed T} {e : T × Action} {run : List (T × Action)}
    (step : s.step checks e = some s') (now : InOrder s e)
    (later : AllSteps (Observed.step checks) InOrder s' run) :
    AllSteps (Observed.step checks) InOrder s (e :: run) :=
  (allSteps_cons_some step).mpr ⟨now, later⟩

theorem accounts_of_aloneRun : ∃ s,
    runFrom (Observed.step true) (.new 1 16) aloneRun = some s ∧ Accounts 1 s := by
  refine ⟨_, rfl, accounts_of_run true 1 16 aloneRun ?_ rfl⟩
  apply inOrder_cons rfl
  · exact nofun
  apply inOrder_cons rfl
  · exact fun _ _ _ _ => nofun
  apply inOrder_cons rfl
  · exact fun _ => trivial
  apply inOrder_cons rfl
  · exact fun _ => trivial
  apply inOrder_cons rfl
  · exact fun _ => trivial
  apply inOrder_cons rfl
  · exact nofun
  apply inOrder_cons rfl
  · exact fun _ _ _ _ _ _ => nofun
  apply inOrder_cons rfl
  · exact fun _ => trivial
  apply inOrder_cons rfl
  · exact fun _ => trivial
  apply inOrder_cons rfl
  · exact fun _ => trivial
  trivial

/-- A thread frees the only block that is out while another one allocates the next. -/
def crossingRun : List (Bool × Action) :=
  [(false, .begin .allocateBlock), (false, .advance), (false, .advance), (false, .advance),
    (false, .advance), (true, .begin (.freeBlock 0)), (true, .advance),
    (false, .begin .allocateBlock), (false, .advance)]

theorem crossingRun_deadlocks : ∃ s,
    runFrom (Observed.step true) (.new 2 16) crossingRun = some s ∧ ¬ Accounts 2 s := by
  refine ⟨_, rfl, ?_⟩
  intro accounts
  apply accounts.live
  apply Locking.deadlocked_of_pair (t := false) (u := true)
  · exact ⟨.allocated, rfl, rfl⟩
  · exact ⟨.freeBlocks, rfl, rfl⟩

end CScript.Blocks
