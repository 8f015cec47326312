import CScript.Inference.Encode

/-!
# The chain of the symbols

From the first symbol on, the neighbours lead along the live symbols, whose spans are the escaped
text from left to right.
-/
namespace CScript.Inference

open Lib

/-- Live symbols, by their places, with their texts. -/
abbrev Links := List (Nat × List Char)

def Links.first (next : Option Nat) : Links → Option Nat
  | [] => next
  | (i, _) :: _ => some i

def Links.last (prev : Option Nat) : Links → Option Nat
  | [] => prev
  | (i, _) :: rest => Links.last (some i) rest

def Links.text (links : Links) : List Char := (links.map Prod.snd).flatten

/-- The symbols say of each other and of the text what the links say. -/
def Chain (symbols : List Symbol) (next : Option Nat) : Option Nat → Nat → Links → Prop
  | _, _, [] => True
  | prev, start, (i, w) :: rest =>
      symbols[i]? = some ⟨start, (asBytes w).length, prev, Links.first next rest⟩ ∧ w ≠ [] ∧
        Chain symbols next (some i) (start + (asBytes w).length) rest

/-- The live symbols tile the text in order. -/
structure Tiling (escaped : List Char) (symbols : List Symbol) (links : Links) : Prop where
  first : Links.first none links = some 0
  text : links.text = escaped
  chain : Chain symbols none none 0 links
  live : ∀ i a, symbols[i]? = some a → a.len ≠ 0 → i ∈ links.map Prod.fst

/-! ## Links -/

theorem Links.first_append (next : Option Nat) (xs ys : Links) :
    Links.first next (xs ++ ys) = Links.first (Links.first next ys) xs := by
  cases xs <;> rfl

theorem Links.last_append_singleton (prev : Option Nat) (xs : Links) (i : Nat) (w : List Char) :
    Links.last prev (xs ++ [(i, w)]) = some i := by
  induction xs generalizing prev with
  | nil => rfl
  | cons link xs ih => exact ih _

theorem Links.text_append (xs ys : Links) : Links.text (xs ++ ys) = xs.text ++ ys.text := by
  unfold Links.text
  rw [List.map_append, List.flatten_append]

theorem Links.text_cons (i : Nat) (w : List Char) (rest : Links) :
    Links.text ((i, w) :: rest) = w ++ rest.text := rfl

variable {symbols : List Symbol} {next : Option Nat}

theorem chain_append {prev : Option Nat} {start : Nat} {xs ys : Links} :
    Chain symbols next prev start (xs ++ ys) ↔
      Chain symbols (Links.first next ys) prev start xs ∧
        Chain symbols next (Links.last prev xs) (start + (asBytes xs.text).length) ys := by
  induction xs generalizing prev start with
  | nil => exact (iff_of_eq (true_and _)).symm
  | cons link xs ih =>
      obtain ⟨i, w⟩ := link
      rw [Links.text_cons, asBytes_append, List.length_append, ← Nat.add_assoc]
      have cons (next : Option Nat) (zs : Links) :
          Chain symbols next prev start ((i, w) :: zs) ↔
            symbols[i]? = some ⟨start, (asBytes w).length, prev, Links.first next zs⟩ ∧ w ≠ [] ∧
              Chain symbols next (some i) (start + (asBytes w).length) zs := Iff.rfl
      rw [List.cons_append, cons, cons, ih, Links.first_append, and_assoc, and_assoc]
      rfl

/-- Only the symbols at the places of the links matter. -/
theorem chain_congr {symbols' : List Symbol} {prev : Option Nat} {start : Nat} {links : Links}
    (same : ∀ i ∈ links.map Prod.fst, symbols'[i]? = symbols[i]?)
    (h : Chain symbols next prev start links) : Chain symbols' next prev start links := by
  induction links generalizing prev start with
  | nil => trivial
  | cons link rest ih =>
      obtain ⟨i, w⟩ := link
      obtain ⟨here, some, tail⟩ := h
      obtain ⟨mine, others⟩ := List.forall_mem_cons.mp same
      exact ⟨mine.trans here, some, ih others tail⟩

theorem length_asBytes_pos {w : List Char} (h : w ≠ []) : 0 < (asBytes w).length := by
  cases w with
  | nil => exact absurd rfl h
  | cons c w =>
      obtain ⟨b, bs, form, -⟩ := exists_firstPiece_utf8EncodeChar c
      rw [asBytes_cons, form]
      exact Nat.succ_pos _

/-- Each symbol begins where the one before ends. -/
theorem chain_start {prev : Option Nat} {start : Nat} {links : Links}
    (h : Chain symbols next prev start links) : ∀ i ∈ links.map Prod.fst, ∃ a,
      symbols[i]? = some a ∧ start ≤ a.start ∧
        a.start + a.len ≤ start + (asBytes links.text).length ∧ a.len ≠ 0 := by
  induction links generalizing prev start with
  | nil => exact fun i mem => absurd mem List.not_mem_nil
  | cons link rest ih =>
      obtain ⟨i, w⟩ := link
      obtain ⟨here, some, tail⟩ := h
      rw [Links.text_cons, asBytes_append, List.length_append]
      rw [List.map_cons, List.forall_mem_cons]
      refine ⟨⟨_, here, Nat.le_refl _, ?_, (length_asBytes_pos some).ne'⟩, fun j mem => ?_⟩
      · dsimp only
        omega
      · obtain ⟨a, there, low, high, live⟩ := ih tail j mem
        exact ⟨a, there, by omega, by omega, live⟩

/-- No place is linked twice. -/
theorem chain_nodup {prev : Option Nat} {start : Nat} {links : Links}
    (h : Chain symbols next prev start links) : (links.map Prod.fst).Nodup := by
  induction links generalizing prev start with
  | nil => exact List.nodup_nil
  | cons link rest ih =>
      obtain ⟨i, w⟩ := link
      obtain ⟨here, some, tail⟩ := h
      refine List.nodup_cons.mpr ⟨fun twice => ?_, ih tail⟩
      obtain ⟨a, there, low, -⟩ := chain_start tail i twice
      cases here.symm.trans there
      have positive := length_asBytes_pos some
      dsimp only at low
      omega

/-! ## Neighbours -/

/-- Two links that follow each other. -/
def Adjacent (links : Links) (i j : Nat) : Prop :=
  ∃ xs w v ys, links = xs ++ (i, w) :: (j, v) :: ys

theorem drop_take_asBytes (xs w ys : List Char) :
    ((asBytes (xs ++ (w ++ ys))).drop (asBytes xs).length).take (asBytes w).length = asBytes w := by
  rw [asBytes_append, List.drop_left, asBytes_append, List.take_left]

/-- The slice of a live symbol is its text. -/
theorem slice_of_link {escaped : List Char} {xs ys : Links} {i : Nat} {w : List Char}
    (tiling : Tiling escaped symbols (xs ++ (i, w) :: ys)) : ∃ a, symbols[i]? = some a ∧
      a.start = (asBytes xs.text).length ∧ a.len = (asBytes w).length ∧
        a.prev = Links.last none xs ∧ a.next = Links.first none ys ∧
          slice (asBytes escaped) a = some (String.ofList w) := by
  obtain ⟨-, here, -, -⟩ := chain_append.mp tiling.chain
  refine ⟨_, here, Nat.zero_add _, rfl, rfl, rfl, ?_⟩
  unfold slice
  dsimp only
  rw [← tiling.text, Links.text_append, Links.text_cons, Nat.zero_add, drop_take_asBytes,
    textOf_eq_some, String.toList_ofList]

/-- A live symbol that begins where another ends follows it. -/
theorem adjacent_of_starts {escaped : List Char} {links : Links}
    (tiling : Tiling escaped symbols links) {i j : Nat} {a b : Symbol}
    (first : symbols[i]? = some a) (second : symbols[j]? = some b) (liveA : a.len ≠ 0)
    (liveB : b.len ≠ 0) (meet : b.start = a.start + a.len) : Adjacent links i j := by
  obtain ⟨⟨i', w⟩, memA, rfl⟩ := List.mem_map.mp (tiling.live i a first liveA)
  obtain ⟨xs, rest, rfl⟩ := List.append_of_mem memA
  obtain ⟨front, here, some, back⟩ := chain_append.mp tiling.chain
  dsimp only at first
  cases here.symm.trans first
  have memB := tiling.live j b second liveB
  rw [List.map_append, List.mem_append, List.map_cons, List.mem_cons] at memB
  dsimp only at meet
  rcases memB with before | same | after
  · obtain ⟨b', there, -, high, -⟩ := chain_start front j before
    cases there.symm.trans second
    have positive := length_asBytes_pos some
    omega
  · cases same
    cases here.symm.trans second
    have positive := length_asBytes_pos some
    dsimp only at meet
    omega
  · cases rest with
    | nil => cases after
    | cons link ys =>
        obtain ⟨k, v⟩ := link
        obtain ⟨there, some', tail⟩ := back
        rcases List.mem_cons.mp after with rfl | later
        · exact ⟨xs, w, v, ys, rfl⟩
        · obtain ⟨b', far, low, -⟩ := chain_start tail j later
          cases far.symm.trans second
          have positive := length_asBytes_pos some'
          omega

end CScript.Inference
