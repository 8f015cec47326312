import CScript.Lib.Fault

/-!
# Readers that keep account

A reader runs over bytes in memory and keeps account of what it does: the room it asks for before
it has read what goes there, and the work of its reads. `Meets` says at once which values stand
where, and which demands on the bytes keep a reader from panicking and from asking for too much.
-/
namespace CScript.Lib

variable {ε α β : Type}

/-- Room for `capacity` items of at least `unit` bytes each, asked for with `left` bytes ahead. -/
structure Request where
  capacity : Nat
  unit : Nat
  left : Nat
  deriving DecidableEq

/-- What is ahead could fill the room. -/
def Request.Fillable (r : Request) : Prop := r.capacity * r.unit ≤ r.left

instance : DecidablePred Request.Fillable := fun _ => inferInstanceAs (Decidable (_ ≤ _))

/-- What serves the requests for room: at least those that the bytes ahead could fill. -/
structure Allocator where
  serves : Request → Bool
  served {r : Request} : r.Fillable → serves r

/-- The account of one run: what comes out, with the position after it, what was asked for and the
work done. -/
structure Account (ε α : Type) where
  result : Except (Fault ε) (α × Nat)
  requests : List Request
  work : Nat

/-- A run without a panic that asks for nothing the bytes ahead could not fill. -/
structure Account.Good (run : Account ε α) : Prop where
  safe : Safe run.result
  fillable : ∀ r ∈ run.requests, r.Fillable

def Reading (ε α : Type) : Type := Nat → Account ε α

namespace Reading

/-- The second reader starts where the first one ends. -/
def andThen (m : Reading ε α) (f : α → Reading ε β) : Reading ε β := fun p =>
  match (m p).result with
  | .error e => ⟨.error e, (m p).requests, (m p).work⟩
  | .ok (a, q) => ⟨(f a q).result, (m p).requests ++ (f a q).requests, (m p).work + (f a q).work⟩

instance : Monad (Reading ε) where
  pure a := fun p => ⟨.ok (a, p), [], 0⟩
  bind := andThen

theorem bind_of_ok {m : Reading ε α} {f : α → Reading ε β} {p q : Nat} {a : α}
    (h : (m p).result = .ok (a, q)) : (m >>= f) p =
      ⟨(f a q).result, (m p).requests ++ (f a q).requests, (m p).work + (f a q).work⟩ := by
  change andThen m f p = _
  rw [andThen, h]

theorem bind_of_error {m : Reading ε α} {f : α → Reading ε β} {p : Nat} {e : Fault ε}
    (h : (m p).result = .error e) :
    (m >>= f) p = ⟨.error e, (m p).requests, (m p).work⟩ := by
  change andThen m f p = _
  rw [andThen, h]

def position : Reading ε Nat := fun p => ⟨.ok (p, p), [], 0⟩

def lift (x : Except (Fault ε) α) : Reading ε α := fun p => ⟨x.map (·, p), [], 0⟩

def fail (e : ε) : Reading ε α := lift (.error (.error e))

/-- Room is asked for. What an allocator does not serve ends the run. -/
def reserve (memory : Allocator) (len capacity unit : Nat) : Reading ε Unit := fun p =>
  ⟨if memory.serves ⟨capacity, unit, len - p⟩ then .ok ((), p) else .error (.panic .capacity),
    [⟨capacity, unit, len - p⟩], 0⟩

/-- The same reader, `n` times over. -/
def times (m : Reading ε α) : Nat → Reading ε (List α)
  | 0 => pure []
  | n + 1 => do
      let a ← m
      let as ← times m n
      return a :: as

/-- Values of one kind, each from where the one before it ends. -/
inductive Chain (reads : Nat → α → Nat → Prop) : Nat → List α → Nat → Prop where
  | nil {p : Nat} : Chain reads p [] p
  | cons {p q r : Nat} {a : α} {as : List α} (first : reads p a q) (rest : Chain reads q as r) :
      Chain reads p (a :: as) r

theorem Chain.le {reads : Nat → α → Nat → Prop} {len : Nat}
    (within : ∀ {p a q}, reads p a q → q ≤ len) {p q : Nat} {as : List α}
    (chain : Chain reads p as q) (here : p ≤ len) : q ≤ len := by
  induction chain with
  | nil => exact here
  | cons first _ ih => exact ih (within first)

/-- The reader finds at a position exactly the values that `reads` has there, as long as the
`demands` of the position are met; these are what a good run needs. Each byte read allows for two
units of work, and one more is left for the read that fails. -/
structure Meets (len : Nat) (m : Reading ε α) (reads : Nat → α → Nat → Prop)
    (demands : Nat → Prop) : Prop where
  sound {p q : Nat} {a : α} (here : p ≤ len) (h : (m p).result = .ok (a, q)) : reads p a q
  complete {p q : Nat} {a : α} (here : p ≤ len) (met : demands p) (h : reads p a q) :
    (m p).result = .ok (a, q)
  good_iff {p : Nat} (here : p ≤ len) : (m p).Good ↔ demands p
  within {p q : Nat} {a : α} (here : p ≤ len) (h : (m p).result = .ok (a, q)) : q ≤ len
  spent {p q : Nat} {a : α} (here : p ≤ len) (h : (m p).result = .ok (a, q)) :
    (m p).work + 2 * p ≤ 2 * q
  bounded {p : Nat} (here : p ≤ len) : (m p).work + 2 * p ≤ 2 * len + 1

variable {len : Nat}

theorem Meets.congrAt {m : Reading ε α} {reads reads' : Nat → α → Nat → Prop}
    {demands demands' : Nat → Prop} (h : Meets len m reads demands)
    (sameReads : ∀ p, p ≤ len → ∀ a q, reads p a q ↔ reads' p a q)
    (sameDemands : ∀ p, p ≤ len → (demands p ↔ demands' p)) : Meets len m reads' demands' where
  sound here ok := (sameReads _ here _ _).mp (h.sound here ok)
  complete here met ok :=
    h.complete here ((sameDemands _ here).mpr met) ((sameReads _ here _ _).mpr ok)
  good_iff here := (h.good_iff here).trans (sameDemands _ here)
  within := h.within
  spent := h.spent
  bounded := h.bounded

theorem Meets.congr {m : Reading ε α} {reads reads' : Nat → α → Nat → Prop}
    {demands demands' : Nat → Prop} (h : Meets len m reads demands)
    (sameReads : ∀ p a q, reads p a q ↔ reads' p a q)
    (sameDemands : ∀ p, p ≤ len → (demands p ↔ demands' p)) : Meets len m reads' demands' :=
  h.congrAt (fun p _ => sameReads p) sameDemands

/-- What a single read does at a position: one value is there, or an error is returned. -/
inductive Step (len p : Nat) (reads : α → Nat → Prop) : Account ε α → Prop where
  | found {a : α} {q work : Nat} (there : reads a q)
      (only : ∀ {b r}, reads b r → b = a ∧ r = q) (within : q ≤ len)
      (spent : work + 2 * p ≤ 2 * q) : Step len p reads ⟨.ok (a, q), [], work⟩
  | missing {e : ε} {work : Nat} (nothing : ∀ {b r}, ¬ reads b r)
      (bounded : work + 2 * p ≤ 2 * len + 1) : Step len p reads ⟨.error (.error e), [], work⟩

theorem meets_of_step {m : Reading ε α} {reads : Nat → α → Nat → Prop}
    (step : ∀ p, p ≤ len → Step len p (reads p) (m p)) : Meets len m reads (fun _ => True) where
  sound {p q a} here ok := by
    rcases hm : m p with ⟨result, requests, work⟩
    have one := step p here
    rw [hm] at one ok
    cases one with
    | found there =>
        cases ok
        exact there
    | missing => exact nomatch ok
  complete {p q a} here _ h := by
    rcases hm : m p with ⟨result, requests, work⟩
    have one := step p here
    rw [hm] at one
    cases one with
    | found _ only =>
        rw [(only h).1, (only h).2]
    | missing nothing => exact absurd h nothing
  good_iff {p} here := by
    refine iff_of_true ?_ trivial
    rcases hm : m p with ⟨result, requests, work⟩
    have one := step p here
    rw [hm] at one
    cases one with
    | found => exact ⟨safe_ok _, fun _ h => nomatch h⟩
    | missing => exact ⟨safe_error _, fun _ h => nomatch h⟩
  within {p q a} here ok := by
    rcases hm : m p with ⟨result, requests, work⟩
    have one := step p here
    rw [hm] at one ok
    cases one with
    | found _ _ within =>
        cases ok
        exact within
    | missing => exact nomatch ok
  spent {p q a} here ok := by
    rcases hm : m p with ⟨result, requests, work⟩
    have one := step p here
    rw [hm] at one ok
    cases one with
    | found _ _ _ spent =>
        cases ok
        exact spent
    | missing => exact nomatch ok
  bounded {p} here := by
    rcases hm : m p with ⟨result, requests, work⟩
    have one := step p here
    rw [hm] at one
    cases one with
    | found _ _ within spent =>
        dsimp only
        omega
    | missing _ bounded => exact bounded

theorem meets_pure (a : α) :
    Meets len (pure a : Reading ε α) (fun p b q => b = a ∧ q = p) (fun _ => True) :=
  meets_of_step fun _ here =>
    .found ⟨rfl, rfl⟩ (fun h => h) here (Nat.le_of_eq (Nat.zero_add _))

theorem meets_position : Meets len (position : Reading ε Nat) (fun p b q => b = p ∧ q = p)
    (fun _ => True) :=
  meets_of_step fun _ here =>
    .found ⟨rfl, rfl⟩ (fun h => h) here (Nat.le_of_eq (Nat.zero_add _))

/-- A computation that reads nothing. -/
theorem meets_lift (x : Except (Fault ε) α) :
    Meets len (lift x) (fun p b q => x = .ok b ∧ q = p) (fun _ => Safe x) := by
  cases x with
  | ok a =>
      apply (meets_pure a).congr
      · intro p b q
        rw [Except.ok.injEq, eq_comm]
      · exact fun _ _ => iff_of_true trivial (safe_ok a)
  | error e =>
      exact {
        sound := fun _ ok => nomatch ok
        complete := fun _ _ h => nomatch h.1
        good_iff := fun _ =>
          ⟨fun good p hp => good.safe p (congrArg _ (Except.error.inj hp)),
            fun safe => ⟨fun p hp => safe p (congrArg _ (Except.error.inj hp)),
              fun _ h => nomatch h⟩⟩
        within := fun _ ok => nomatch ok
        spent := fun _ ok => nomatch ok
        bounded := fun here => by
          change 0 + 2 * _ ≤ _
          omega }

theorem meets_fail (e : ε) :
    Meets len (fail e : Reading ε α) (fun _ _ _ => False) (fun _ => True) := by
  apply (meets_lift (.error (.error e))).congr
  · exact fun p b q => ⟨fun h => (nomatch h.1), False.elim⟩
  · exact fun _ _ => iff_of_true (safe_error e) trivial

theorem meets_reserve (memory : Allocator) (capacity unit : Nat) :
    Meets len (reserve memory len capacity unit : Reading ε Unit) (fun p _ q => q = p)
      (fun p => capacity * unit ≤ len - p) where
  sound {p q a} _ ok := by
    dsimp only [reserve] at ok
    split at ok
    · cases ok
      rfl
    · exact nomatch ok
  complete {p q a} _ met h := by
    have serves := memory.served (r := ⟨capacity, unit, len - p⟩) met
    dsimp only [reserve]
    rw [if_pos serves, h]
  good_iff {p} _ := by
    constructor
    · exact fun good => good.fillable _ (List.mem_singleton_self _)
    · intro met
      have serves := memory.served (r := ⟨capacity, unit, len - p⟩) met
      constructor
      · dsimp only [reserve]
        rw [if_pos serves]
        exact safe_ok _
      · intro r hr
        rw [List.mem_singleton.mp hr]
        exact met
  within {p q a} here ok := by
    dsimp only [reserve] at ok
    split at ok
    · cases ok
      exact here
    · exact nomatch ok
  spent {p q a} _ ok := by
    dsimp only [reserve] at ok ⊢
    split at ok
    · cases ok
      exact Nat.le_of_eq (Nat.zero_add _)
    · exact nomatch ok
  bounded {p} here := by
    change 0 + 2 * p ≤ _
    omega

/-- One reader after another: the second has its demands wherever the first can leave it. -/
theorem Meets.bind {m : Reading ε α} {f : α → Reading ε β} {reads : Nat → α → Nat → Prop}
    {demands : Nat → Prop} {reads' : α → Nat → β → Nat → Prop} {demands' : α → Nat → Prop}
    (first : Meets len m reads demands) (second : ∀ a, Meets len (f a) (reads' a) (demands' a)) :
    Meets len (m >>= f) (fun p b r => ∃ a q, reads p a q ∧ reads' a q b r)
      (fun p => demands p ∧ ∀ a q, reads p a q → demands' a q) where
  sound {p r b} here ok := by
    cases hm : (m p).result with
    | error e =>
        rw [bind_of_error hm] at ok
        exact nomatch ok
    | ok aq =>
        rw [bind_of_ok hm] at ok
        exact ⟨aq.1, aq.2, first.sound here hm, (second aq.1).sound (first.within here hm) ok⟩
  complete {p r b} here met := by
    rintro ⟨a, q, h, h'⟩
    have hm := first.complete here met.1 h
    rw [bind_of_ok hm]
    exact (second a).complete (first.within here hm) (met.2 a q h) h'
  good_iff {p} here := by
    cases hm : (m p).result with
    | error e =>
        rw [bind_of_error hm]
        constructor
        · intro good
          have met := (first.good_iff here).mp
            ⟨fun n hn => good.safe n (congrArg _ (Except.error.inj (hm.symm.trans hn))),
              good.fillable⟩
          refine ⟨met, ?_⟩
          intro a q h
          rw [first.complete here met h] at hm
          exact nomatch hm
        · intro met
          have good := (first.good_iff here).mpr met.1
          exact ⟨fun n hn => good.safe n (hm.trans (congrArg _ (Except.error.inj hn))),
            good.fillable⟩
    | ok aq =>
        rw [bind_of_ok hm]
        have after := (second aq.1).good_iff (first.within here hm)
        constructor
        · intro good
          have met := (first.good_iff here).mp
            ⟨hm ▸ safe_ok aq, fun r hr => good.fillable r (List.mem_append_left _ hr)⟩
          refine ⟨met, ?_⟩
          intro a q h
          have same := first.complete here met h
          rw [hm] at same
          cases same
          exact after.mp ⟨good.safe, fun r hr => good.fillable r (List.mem_append_right _ hr)⟩
        · intro met
          have good := (first.good_iff here).mpr met.1
          have good' := after.mpr (met.2 aq.1 aq.2 (first.sound here hm))
          refine ⟨good'.safe, ?_⟩
          intro r hr
          rcases List.mem_append.mp hr with hr | hr
          · exact good.fillable r hr
          · exact good'.fillable r hr
  within {p r b} here ok := by
    cases hm : (m p).result with
    | error e =>
        rw [bind_of_error hm] at ok
        exact nomatch ok
    | ok aq =>
        rw [bind_of_ok hm] at ok
        exact (second aq.1).within (first.within here hm) ok
  spent {p r b} here ok := by
    cases hm : (m p).result with
    | error e =>
        rw [bind_of_error hm] at ok
        exact nomatch ok
    | ok aq =>
        rw [bind_of_ok hm] at ok ⊢
        have before := first.spent here hm
        have after := (second aq.1).spent (first.within here hm) ok
        dsimp only
        omega
  bounded {p} here := by
    cases hm : (m p).result with
    | error e =>
        rw [bind_of_error hm]
        exact first.bounded here
    | ok aq =>
        rw [bind_of_ok hm]
        have before := first.spent here hm
        have after := (second aq.1).bounded (first.within here hm)
        dsimp only
        omega

/-- Either reader; the other one does not count. -/
theorem meets_ite (c : Prop) [Decidable c] {m m' : Reading ε α}
    {reads reads' : Nat → α → Nat → Prop} {demands demands' : Nat → Prop}
    (yes : Meets len m reads demands) (no : Meets len m' reads' demands') :
    Meets len (if c then m else m') (fun p a q => if c then reads p a q else reads' p a q)
      (fun p => if c then demands p else demands' p) := by
  by_cases h : c
  · simpa only [if_pos h] using yes
  · simpa only [if_neg h] using no

theorem Meets.map {m : Reading ε α} {reads : Nat → α → Nat → Prop} {demands : Nat → Prop}
    (h : Meets len m reads demands) (f : α → β) :
    Meets len (m >>= fun a => pure (f a)) (fun p b q => ∃ a, reads p a q ∧ b = f a) demands := by
  apply (h.bind fun a => meets_pure (f a)).congr
  · intro p b r
    constructor
    · rintro ⟨a, q, first, rfl, rfl⟩
      exact ⟨a, first, rfl⟩
    · rintro ⟨a, first, rfl⟩
      exact ⟨a, r, first, rfl, rfl⟩
  · exact fun p _ => ⟨And.left, fun met => ⟨met, fun _ _ _ => trivial⟩⟩

/-- A loop of a fixed number of rounds. Its demands are those of every round that the bytes lead
to. -/
theorem Meets.times {m : Reading ε α} {reads : Nat → α → Nat → Prop} {demands : Nat → Prop}
    (h : Meets len m reads demands) (n : Nat) :
    Meets len (times m n) (fun p as q => Chain reads p as q ∧ as.length = n)
      (fun p => ∀ as q, Chain reads p as q → as.length < n → demands q) := by
  induction n with
  | zero =>
      apply (meets_pure []).congr
      · intro p as q
        constructor
        · rintro ⟨rfl, rfl⟩
          exact ⟨.nil, rfl⟩
        · rintro ⟨chain, none⟩
          cases chain with
          | nil => exact ⟨rfl, rfl⟩
          | cons first rest => exact nomatch none
      · exact fun p _ => iff_of_true trivial fun as q _ few => absurd few (Nat.not_lt_zero _)
  | succ n ih =>
      apply (h.bind fun a => ih.bind fun as => meets_pure (a :: as)).congr
      · intro p as r
        constructor
        · rintro ⟨a, q, first, as, _, ⟨rest, rfl⟩, rfl, rfl⟩
          exact ⟨.cons first rest, rfl⟩
        · rintro ⟨chain, count⟩
          cases chain with
          | nil => exact nomatch count
          | cons first rest =>
              exact ⟨_, _, first, _, _, ⟨rest, Nat.succ.inj count⟩, rfl, rfl⟩
      · intro p _
        constructor
        · rintro ⟨met, later⟩ as q chain few
          cases chain with
          | nil => exact met
          | cons first rest => exact (later _ _ first).1 _ q rest (Nat.lt_of_succ_lt_succ few)
        · intro all
          refine ⟨all [] p .nil (Nat.succ_pos n), fun a q first => ⟨?_, fun _ _ _ => trivial⟩⟩
          exact fun as r rest few => all (a :: as) r (.cons first rest) (Nat.succ_lt_succ few)

end Reading

end CScript.Lib
