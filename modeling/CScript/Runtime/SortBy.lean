import CScript.Lib.SortTree
import CScript.Storage.Select

/-!
# Sorting in memory

`sortBy` and `sortByDesc` of a list: the keys are computed once, and a comparison that fails answers
`Equal` and is reported when the sort has ended.
-/

namespace CScript

open Lib

/-- The result of a comparison, turned round for `sortByDesc`. -/
def directed (desc : Bool) (o : Ordering) : Ordering := if desc then o.swap else o

def orderCmp (a b : Value) (desc : Bool) : Except RuntimeError Ordering :=
  match a, b with
  | .null, .null => .ok .eq
  | .null, _ => .ok .gt
  | _, .null => .ok .lt
  | .int x, .int y => .ok (directed desc (Ord.compare x.toInt y.toInt))
  | .int64 x, .int64 y => .ok (directed desc (Ord.compare x.toInt y.toInt))
  | .decimal x, .decimal y => .ok (directed desc (Ord.compare x.toInt y.toInt))
  | .timestamp x, .timestamp y => .ok (directed desc (Ord.compare x.toInt y.toInt))
  | .float x, .float y =>
      match x.partialCmp y with
      | some o => .ok (directed desc o)
      | none => .error (err "sortBy: clave de orden NaN")
  | .str x, .str y => .ok (directed desc (Ord.compare x y))
  | .uuid x, .uuid y => .ok (directed desc (Ord.compare x y))
  | .bool x, .bool y => .ok (directed desc (Ord.compare x y))
  | a, b => .error (err <|
      s!"sortBy: claves de orden de tipos distintos o sin orden total: {a.debug} y {b.debug}")

section

variable (sort : StableSort) (desc : Bool) (keyed : List (Value × Value))

/-- The answer that the comparator of `sort_by` gives. -/
def answer (i j : Fin keyed.length) : Ordering :=
  match orderCmp (keyed.get i).1 (keyed.get j).1 desc with
  | .ok o => o
  | .error _ => .eq

/-- The failure that is kept: the first one. -/
def keptFailure (asked : List (Fin keyed.length × Fin keyed.length)) : Option RuntimeError :=
  asked.findSome? fun p =>
    match orderCmp (keyed.get p.1).1 (keyed.get p.2).1 desc with
    | .ok _ => none
    | .error e => some e

/-- The sort of the items with their keys; `none` for a panic. -/
def sortKeyed : Option (Except RuntimeError (List Value)) :=
  ((sort.tree keyed.length).run (answer desc keyed)).map fun r =>
    match keptFailure desc keyed r.2 with
    | some e => .error e
    | none => .ok (r.1.map fun i => (keyed.get i).2)

end

/-- `sortBy` and `sortByDesc` of `call_method`. -/
def sortBy {η : Type} (ev : Evals η) (sort : StableSort) (method : String)
    (items args : List Value) : EvalM η (Option (Except RuntimeError (List Value))) :=
  match args with
  | [] => return some (.error (err s!"'{method}' requiere 1 argumento"))
  | f :: _ => do
      let keys ← Storage.callOnEach ev f items
      return sortKeyed sort (method == "sortByDesc") (keys.zip items)

/-! ## The order of keys -/

/-- A number for the type of a key; `0` is no key. -/
def keyKind : Value → Nat
  | .int _ => 1
  | .int64 _ => 2
  | .decimal _ => 3
  | .timestamp _ => 4
  | .float _ => 5
  | .str _ => 6
  | .uuid _ => 7
  | .bool _ => 8
  | _ => 0

/-- Where a key stands among those of its type. -/
structure KeyPlace where
  number : Int
  text : String

/-- The place of a key. A NaN has none. -/
def keyPlace : Value → Option KeyPlace
  | .int n => some ⟨n.toInt, ""⟩
  | .int64 n => some ⟨n.toInt, ""⟩
  | .decimal raw => some ⟨raw.toInt, ""⟩
  | .timestamp ms => some ⟨ms.toInt, ""⟩
  | .float .nan => none
  | .float x => some ⟨x.place, ""⟩
  | .str s => some ⟨0, s⟩
  | .uuid s => some ⟨0, s⟩
  | .bool b => some ⟨if b then 1 else 0, ""⟩
  | _ => none

def KeyPlace.cmp : KeyPlace → KeyPlace → Ordering :=
  compareLex (compareOn KeyPlace.number) (compareOn KeyPlace.text)

instance : Std.TransCmp KeyPlace.cmp := inferInstanceAs (Std.TransCmp (compareLex _ _))

/-- The order of two keys of one type. -/
def keyOrder (a b : Value) : Option Ordering :=
  if keyKind a = keyKind b then do return (← keyPlace a).cmp (← keyPlace b)
  else none

/-- The first key comes before the second one, nulls last in both directions. -/
def Precedes (desc : Bool) (a b : Value) : Prop :=
  a ≠ .null ∧ b = .null ∨ keyOrder a b = some (if desc then .gt else .lt)

def Ties (a b : Value) : Prop := a = .null ∧ b = .null ∨ keyOrder a b = some .eq

def Incomparable (a b : Value) : Prop := a ≠ .null ∧ b ≠ .null ∧ keyOrder a b = none

theorem KeyPlace.cmp_number (number number' : Int) (text : String) :
    KeyPlace.cmp ⟨number, text⟩ ⟨number', text⟩ = Ord.compare number number' := by
  rw [cmp, compareLex]
  exact (congrArg (Ordering.then _) Std.ReflOrd.compare_self).trans Ordering.then_eq

theorem KeyPlace.cmp_text (number : Int) (text text' : String) :
    KeyPlace.cmp ⟨number, text⟩ ⟨number, text'⟩ = Ord.compare text text' := by
  rw [cmp, compareLex]
  exact (congrArg (Ordering.then · _) Std.ReflOrd.compare_self).trans Ordering.eq_then

theorem keyOrder_eq_some {a b : Value} {o : Ordering} :
    keyOrder a b = some o ↔ keyKind a = keyKind b ∧
      ∃ p q, keyPlace a = some p ∧ keyPlace b = some q ∧ p.cmp q = o := by
  unfold keyOrder
  split
  · next heq =>
    cases keyPlace a <;> cases keyPlace b <;> simp [heq]
  · next hne => exact iff_of_false nofun fun h => hne h.1

theorem keyKind_ne_zero {v : Value} {p : KeyPlace} (h : keyPlace v = some p) : keyKind v ≠ 0 := by
  cases v <;> first
    | exact Nat.succ_ne_zero _
    | cases h

theorem keyPlace_float (x : F64) :
    keyPlace (.float x) = if x = .nan then none else some ⟨x.place, ""⟩ := by
  cases x with
  | nan => exact (if_pos rfl).symm
  | _ => exact (if_neg nofun).symm

theorem keyOrder_float (x y : F64) : keyOrder (.float x) (.float y) = x.partialCmp y := by
  have hkind : keyKind (.float x) = keyKind (.float y) := rfl
  rw [keyOrder, if_pos hkind, keyPlace_float, keyPlace_float]
  by_cases hx : x = .nan
  · rw [if_pos hx, hx]
    rfl
  by_cases hy : y = .nan
  · rw [if_neg hx, if_pos hy, hy]
    cases x <;> rfl
  rw [if_neg hx, if_neg hy]
  change some (KeyPlace.cmp _ _) = _
  rw [KeyPlace.cmp_number]
  cases hcmp : x.partialCmp y with
  | none =>
      cases x <;> cases y <;> first
        | exact absurd rfl hx
        | exact absurd rfl hy
        | cases hcmp
  | some o => rw [Binary.compare_place hcmp]

/-- The code compares as the keys are ordered, and fails where they are not. -/
theorem orderCmp_eq {a b : Value} (ha : a ≠ .null) (hb : b ≠ .null) (desc : Bool) :
    (orderCmp a b desc).toOption = (keyOrder a b).map (directed desc) := by
  unfold orderCmp
  split
  case h_1 => exact absurd rfl ha
  case h_2 => exact absurd rfl ha
  case h_3 => exact absurd rfl hb
  case h_4 | h_5 | h_6 | h_7 =>
    change some _ = some (directed desc (KeyPlace.cmp _ _))
    rw [KeyPlace.cmp_number]
  case h_8 x y =>
    rw [keyOrder_float]
    cases x.partialCmp y <;> rfl
  case h_9 | h_10 =>
    change some _ = some (directed desc (KeyPlace.cmp _ _))
    rw [KeyPlace.cmp_text]
  case h_11 x y =>
    cases x <;> cases y <;> rfl
  case h_12 _ _ _ hint hint64 hdecimal htimestamp hfloat hstr huuid hbool =>
    cases hkey : keyOrder a b with
    | none => rfl
    | some o =>
        exfalso
        obtain ⟨htype, _, _, hplace, -⟩ := keyOrder_eq_some.mp hkey
        have hzero := keyKind_ne_zero hplace
        cases a <;> first
          | exact hzero rfl
          | cases b <;> first
            | exact absurd htype (Nat.ne_of_beq_eq_false rfl)
            | exact hint _ _ rfl rfl
            | exact hint64 _ _ rfl rfl
            | exact hdecimal _ _ rfl rfl
            | exact htimestamp _ _ rfl rfl
            | exact hfloat _ _ rfl rfl
            | exact hstr _ _ rfl rfl
            | exact huuid _ _ rfl rfl
            | exact hbool _ _ rfl rfl

theorem keyOrder_null_left (b : Value) : keyOrder .null b = none := by
  unfold keyOrder
  split <;> rfl

theorem keyOrder_null_right (a : Value) : keyOrder a .null = none := by
  unfold keyOrder
  split
  · cases keyPlace a <;> rfl
  · rfl

theorem keyOrder_swap {a b : Value} {o : Ordering} (h : keyOrder a b = some o) :
    keyOrder b a = some o.swap := by
  obtain ⟨hkind, p, q, hp, hq, rfl⟩ := keyOrder_eq_some.mp h
  exact keyOrder_eq_some.mpr ⟨hkind.symm, q, p, hq, hp, Std.OrientedCmp.eq_swap⟩

theorem ne_null_of_keyOrder {a b : Value} {o : Ordering} (h : keyOrder a b = some o) :
    a ≠ .null ∧ b ≠ .null := by
  constructor <;> rintro rfl
  · rw [keyOrder_null_left] at h
    cases h
  · rw [keyOrder_null_right] at h
    cases h

theorem orderCmp_ok_iff {a b : Value} (ha : a ≠ .null) (hb : b ≠ .null) {desc : Bool}
    {o : Ordering} : orderCmp a b desc = .ok o ↔ keyOrder a b = some (directed desc o) := by
  rw [← toOption_eq_some_iff, orderCmp_eq ha hb, Option.map_eq_some_iff]
  constructor
  · rintro ⟨o', hkey, rfl⟩
    rw [hkey]
    cases desc <;> cases o' <;> rfl
  · intro hkey
    exact ⟨_, hkey, by cases desc <;> cases o <;> rfl⟩

theorem orderCmp_null_left {b : Value} (hb : b ≠ .null) {desc : Bool} :
    orderCmp .null b desc = .ok .gt := by
  cases b <;> first
    | rfl
    | exact absurd rfl hb

theorem orderCmp_null_right {a : Value} (ha : a ≠ .null) {desc : Bool} :
    orderCmp a .null desc = .ok .lt := by
  cases a <;> first
    | rfl
    | exact absurd rfl ha

/-- How two keys can stand to each other, and what the code answers. -/
inductive Compared (a b : Value) (desc : Bool) : Except RuntimeError Ordering → Prop
  | nulls (ha : a = .null) (hb : b = .null) : Compared a b desc (.ok .eq)
  | nullFirst (ha : a = .null) (hb : b ≠ .null) : Compared a b desc (.ok .gt)
  | nullSecond (ha : a ≠ .null) (hb : b = .null) : Compared a b desc (.ok .lt)
  | ordered (ha : a ≠ .null) (hb : b ≠ .null) {o : Ordering} (h : keyOrder a b = some o) :
      Compared a b desc (.ok (directed desc o))
  | incomparable (h : Incomparable a b) (e : RuntimeError) : Compared a b desc (.error e)

theorem compared (a b : Value) (desc : Bool) : Compared a b desc (orderCmp a b desc) := by
  by_cases ha : a = .null <;> by_cases hb : b = .null
  · rw [ha, hb]
    exact .nulls rfl rfl
  · rw [ha, orderCmp_null_left hb]
    exact .nullFirst rfl hb
  · rw [hb, orderCmp_null_right ha]
    exact .nullSecond ha rfl
  · have hcmp := orderCmp_eq ha hb desc
    cases hkey : keyOrder a b with
    | none =>
        cases h : orderCmp a b desc with
        | error e => exact .incomparable ⟨ha, hb, hkey⟩ e
        | ok o =>
            rw [h, hkey] at hcmp
            cases hcmp
    | some o =>
        rw [hkey] at hcmp
        rw [toOption_eq_some_iff.mp hcmp]
        exact .ordered ha hb hkey

theorem orderCmp_eq_lt_iff {a b : Value} {desc : Bool} :
    orderCmp a b desc = .ok .lt ↔ Precedes desc a b := by
  unfold Precedes
  have hcompared := compared a b desc
  generalize orderCmp a b desc = answer at hcompared ⊢
  cases hcompared with
  | nulls ha hb => simp [ha, hb, keyOrder_null_left]
  | nullFirst ha hb => simp [ha, hb, keyOrder_null_left]
  | nullSecond ha hb => simp [ha, hb]
  | @ordered ha hb o h => cases desc <;> cases o <;> simp [ha, hb, h, directed]
  | incomparable h e => simp [h.2.1, h.2.2]

theorem orderCmp_eq_eq_iff {a b : Value} {desc : Bool} :
    orderCmp a b desc = .ok .eq ↔ Ties a b := by
  unfold Ties
  have hcompared := compared a b desc
  generalize orderCmp a b desc = answer at hcompared ⊢
  cases hcompared with
  | nulls ha hb => simp [ha, hb]
  | nullFirst ha hb => simp [ha, hb, keyOrder_null_left]
  | nullSecond ha hb => simp [ha, hb, keyOrder_null_right]
  | @ordered ha hb o h => cases desc <;> cases o <;> simp [ha, h, directed]
  | incomparable h e => simp [h.1, h.2.2]

theorem orderCmp_eq_error_iff {a b : Value} {desc : Bool} :
    (∃ e, orderCmp a b desc = .error e) ↔ Incomparable a b := by
  unfold Incomparable
  have hcompared := compared a b desc
  generalize orderCmp a b desc = answer at hcompared ⊢
  cases hcompared with
  | nulls ha hb => simp [ha]
  | nullFirst ha hb => simp [ha]
  | nullSecond ha hb => simp [hb]
  | @ordered ha hb o h => simp [h]
  | incomparable h e => simp [h.1, h.2.1, h.2.2]

/-! ## The comparator as an order -/

section

variable {desc : Bool} {keyed : List (Value × Value)} {i j : Fin keyed.length}

/-- The key of an item. -/
def keyAt (keyed : List (Value × Value)) (i : Fin keyed.length) : Value := (keyed.get i).1

/-- The failure of one comparison is an answer too. -/
theorem answer_eq : answer desc keyed i j =
    (orderCmp (keyAt keyed i) (keyAt keyed j) desc).toOption.getD .eq := by
  unfold answer keyAt
  cases orderCmp (keyed.get i).1 (keyed.get j).1 desc <;> rfl

def nullRank : Value → Int
  | .null => 1
  | _ => 0

/-- The keys that can be compared with a key that is not null: those of its type, and for a key
without a place itself alone. -/
def block (keyed : List (Value × Value)) (i : Fin keyed.length) : Int :=
  match keyPlace (keyAt keyed i), keyAt keyed i with
  | some _, _ => keyKind (keyAt keyed i)
  | none, .null => 0
  | none, _ => -(i.val + 1)

def placeAt (keyed : List (Value × Value)) (i : Fin keyed.length) : KeyPlace :=
  (keyPlace (keyAt keyed i)).getD ⟨0, ""⟩

/-- The order of the keys within a block. -/
def withinBlock (keyed : List (Value × Value)) : Fin keyed.length → Fin keyed.length → Ordering :=
  compareLex (compareOn fun i => (placeAt keyed i).number)
    (compareOn fun i => (placeAt keyed i).text)

/-- An order that agrees with the comparator wherever that does not fail: the blocks stand one
after the other, with `sign` in one direction or the other. -/
def blockOrder (sign : Int) (desc : Bool) (keyed : List (Value × Value)) :
    Fin keyed.length → Fin keyed.length → Ordering :=
  compareLex (compareOn fun i => nullRank (keyAt keyed i))
    (compareLex (compareOn fun i => sign * block keyed i)
      (if desc then fun i j => withinBlock keyed j i else withinBlock keyed))

instance : Std.TransCmp (withinBlock keyed) := inferInstanceAs (Std.TransCmp (compareLex _ _))

instance (sign : Int) : Std.TransCmp (blockOrder sign desc keyed) := by
  cases desc with
  | false => exact inferInstanceAs (Std.TransCmp (compareLex _ (compareLex _ (withinBlock keyed))))
  | true =>
      exact inferInstanceAs (Std.TransCmp (compareLex _ (compareLex _ fun i j =>
        withinBlock keyed j i)))

theorem block_of_some {p : KeyPlace} (h : keyPlace (keyAt keyed i) = some p) :
    block keyed i = keyKind (keyAt keyed i) ∧ placeAt keyed i = p := by
  rw [block, placeAt, h]
  exact ⟨rfl, rfl⟩

theorem block_of_none (h : keyPlace (keyAt keyed i) = none) (hnull : keyAt keyed i ≠ .null) :
    block keyed i = -(i.val + 1) := by
  rw [block, h]
  split
  · contradiction
  · next hnull' => exact absurd hnull' hnull
  · rfl

theorem nullRank_of_ne {v : Value} (h : v ≠ .null) : nullRank v = 0 := by
  cases v <;> first
    | rfl
    | exact absurd rfl h

/-- Keys that cannot be compared are of different blocks. -/
theorem block_ne_of_incomparable (hne : i ≠ j) (h : Incomparable (keyAt keyed i) (keyAt keyed j)) :
    block keyed i ≠ block keyed j := by
  obtain ⟨hi, hj, hnone⟩ := h
  cases hp : keyPlace (keyAt keyed i) with
  | some p =>
      have hkind := keyKind_ne_zero hp
      rw [(block_of_some hp).1]
      cases hq : keyPlace (keyAt keyed j) with
      | some q =>
          rw [(block_of_some hq).1]
          intro heq
          rw [keyOrder_eq_some.mpr ⟨Int.ofNat.inj heq, p, q, hp, hq, rfl⟩] at hnone
          cases hnone
      | none =>
          rw [block_of_none hq hj]
          omega
  | none =>
      rw [block_of_none hp hi]
      cases hq : keyPlace (keyAt keyed j) with
      | some q =>
          rw [(block_of_some hq).1]
          omega
      | none =>
          rw [block_of_none hq hj]
          have hval := fun h => hne (Fin.ext h)
          omega

/-- Keys that can be compared are of one block. -/
theorem block_eq_of_keyOrder {o : Ordering}
    (h : keyOrder (keyAt keyed i) (keyAt keyed j) = some o) :
    block keyed i = block keyed j ∧ withinBlock keyed i j = o := by
  obtain ⟨hkind, p, q, hp, hq, hcmp⟩ := keyOrder_eq_some.mp h
  obtain ⟨hblock, hplace⟩ := block_of_some hp
  obtain ⟨hblock', hplace'⟩ := block_of_some hq
  rw [hblock, hblock', hkind]
  refine ⟨rfl, ?_⟩
  change (placeAt keyed i).cmp (placeAt keyed j) = o
  rw [hplace, hplace', hcmp]

theorem blockOrder_eq_answer (sign : Int)
    (h : ¬ Incomparable (keyAt keyed i) (keyAt keyed j)) :
    blockOrder sign desc keyed i j = answer desc keyed i j := by
  rw [answer_eq, blockOrder, compareLex, compareOn, compareLex, compareOn]
  have hcompared := compared (keyAt keyed i) (keyAt keyed j) desc
  generalize orderCmp (keyAt keyed i) (keyAt keyed j) desc = result at hcompared ⊢
  cases hcompared with
  | nulls ha hb =>
      have hblock : block keyed i = 0 ∧ block keyed j = 0 := by
        rw [block, block, ha, hb]
        exact ⟨rfl, rfl⟩
      have hplace : placeAt keyed i = ⟨0, ""⟩ ∧ placeAt keyed j = ⟨0, ""⟩ := by
        rw [placeAt, placeAt, ha, hb]
        exact ⟨rfl, rfl⟩
      have hwithin : (if desc then fun i j => withinBlock keyed j i else withinBlock keyed) i j =
          .eq := by
        cases desc <;>
          · change KeyPlace.cmp _ _ = .eq
            rw [hplace.1, hplace.2]
            rfl
      rw [ha, hb, hblock.1, hblock.2, hwithin, Std.ReflOrd.compare_self, Std.ReflOrd.compare_self]
      rfl
  | nullFirst ha hb =>
      rw [ha, nullRank_of_ne hb]
      rfl
  | nullSecond ha hb =>
      rw [hb, nullRank_of_ne ha]
      rfl
  | @ordered ha hb o h =>
      obtain ⟨hblock, hwithin⟩ := block_eq_of_keyOrder h
      rw [nullRank_of_ne ha, nullRank_of_ne hb, hblock, Std.ReflOrd.compare_self,
        Std.ReflOrd.compare_self]
      change (if desc then fun i j => withinBlock keyed j i else withinBlock keyed) i j =
        directed desc o
      cases desc with
      | false => exact hwithin
      | true =>
          change withinBlock keyed j i = o.swap
          rw [← hwithin]
          exact Std.OrientedCmp.eq_swap
  | incomparable h' => exact absurd h' h

/-- Two keys that cannot be compared stand one way round in one direction of the blocks and the
other way round in the other. -/
theorem blockOrder_of_incomparable (hne : i ≠ j)
    (h : Incomparable (keyAt keyed i) (keyAt keyed j)) :
    blockOrder 1 desc keyed i j = .lt ∧ blockOrder (-1) desc keyed i j = .gt ∨
      blockOrder (-1) desc keyed i j = .lt ∧ blockOrder 1 desc keyed i j = .gt := by
  have hblock := block_ne_of_incomparable hne h
  have hlt : ∀ sign, sign * block keyed i < sign * block keyed j →
      blockOrder sign desc keyed i j = .lt := by
    intro sign hlt
    rw [blockOrder, compareLex, compareOn, compareLex, compareOn, nullRank_of_ne h.1,
      nullRank_of_ne h.2.1, Std.ReflOrd.compare_self, Int.compare_eq_lt.mpr hlt]
    rfl
  have hgt : ∀ sign, sign * block keyed j < sign * block keyed i →
      blockOrder sign desc keyed i j = .gt := by
    intro sign hgt
    rw [blockOrder, compareLex, compareOn, compareLex, compareOn, nullRank_of_ne h.1,
      nullRank_of_ne h.2.1, Std.ReflOrd.compare_self, Int.compare_eq_gt.mpr hgt]
    rfl
  rcases lt_or_gt_of_ne hblock with hless | hmore
  · exact .inl ⟨hlt 1 (by omega), hgt (-1) (by omega)⟩
  · exact .inr ⟨hlt (-1) (by omega), hgt 1 (by omega)⟩

theorem answer_self (i : Fin keyed.length) : answer desc keyed i i = .eq := by
  by_cases h : Incomparable (keyAt keyed i) (keyAt keyed i)
  · obtain ⟨e, he⟩ : ∃ e, orderCmp (keyAt keyed i) (keyAt keyed i) desc = .error e :=
      orderCmp_eq_error_iff.mpr h
    rw [answer_eq, he]
    rfl
  · rw [← blockOrder_eq_answer 1 h]
    exact Std.ReflCmp.compare_self

theorem answer_of_incomparable (h : Incomparable (keyAt keyed i) (keyAt keyed j)) :
    answer desc keyed i j = .eq := by
  obtain ⟨e, he⟩ := orderCmp_eq_error_iff.mpr h
  rw [answer_eq, he]
  rfl

theorem orderCmp_eq_answer (h : ¬ Incomparable (keyAt keyed i) (keyAt keyed j)) :
    orderCmp (keyAt keyed i) (keyAt keyed j) desc = .ok (answer desc keyed i j) := by
  rw [answer_eq]
  cases hcmp : orderCmp (keyAt keyed i) (keyAt keyed j) desc with
  | ok o => rfl
  | error e => exact absurd (orderCmp_eq_error_iff.mp ⟨e, hcmp⟩) h

/-- The keys that are not null can all be compared, or none of them comes before another one. -/
def Consistent (keyed : List (Value × Value)) : Prop :=
  (∀ i j, i ≠ j → ¬ Incomparable (keyAt keyed i) (keyAt keyed j)) ∨
    ∀ i j, keyOrder (keyAt keyed i) (keyAt keyed j) ≠ some .lt

theorem Consistent.transCmp (h : Consistent keyed) (desc : Bool) :
    Std.TransCmp (answer desc keyed) := by
  rcases h with hall | hnone
  · have heq : answer desc keyed = blockOrder 1 desc keyed := by
      funext i j
      by_cases hij : i = j
      · rw [hij, answer_self]
        exact Std.ReflCmp.compare_self.symm
      · exact (blockOrder_eq_answer 1 (hall i j hij)).symm
    exact heq ▸ inferInstance
  · have heq : answer desc keyed = compareOn fun i => nullRank (keyAt keyed i) := by
      funext i j
      rw [answer_eq, compareOn]
      have hcompared := compared (keyAt keyed i) (keyAt keyed j) desc
      generalize orderCmp (keyAt keyed i) (keyAt keyed j) desc = result at hcompared ⊢
      cases hcompared with
      | nulls ha hb => rw [ha, hb]; rfl
      | nullFirst ha hb => rw [ha, nullRank_of_ne hb]; rfl
      | nullSecond ha hb => rw [hb, nullRank_of_ne ha]; rfl
      | @ordered ha hb o h =>
          rw [nullRank_of_ne ha, nullRank_of_ne hb]
          cases o with
          | eq => cases desc <;> rfl
          | lt => exact absurd h (hnone i j)
          | gt => exact absurd (keyOrder_swap h) (hnone j i)
      | incomparable h e => rw [nullRank_of_ne h.1, nullRank_of_ne h.2.1]; rfl
    exact heq ▸ inferInstanceAs (Std.TransCmp (compareOn _))

theorem consistent_of_transCmp (h : Std.TransCmp (answer desc keyed)) : Consistent keyed := by
  by_contra hnot
  obtain ⟨hsome, hlt⟩ := not_or.mp hnot
  push Not at hsome hlt
  obtain ⟨i, j, hne, hij⟩ := hsome
  obtain ⟨u, v, huv⟩ := hlt
  have hblock := (block_eq_of_keyOrder huv).1
  -- One of the two is neither of the block of `u` nor of that of `v`, and ties with both.
  have hapart : ∃ x, keyAt keyed x ≠ .null ∧ block keyed x ≠ block keyed u := by
    by_cases hi : block keyed i = block keyed u
    · exact ⟨j, hij.2.1, fun hj => block_ne_of_incomparable hne hij (hi.trans hj.symm)⟩
    · exact ⟨i, hij.1, hi⟩
  obtain ⟨x, hx, hapart⟩ := hapart
  have hties : ∀ w, keyAt keyed w ≠ .null → block keyed w = block keyed u →
      answer desc keyed x w = .eq := by
    intro w hw hwu
    refine answer_of_incomparable ⟨hx, hw, ?_⟩
    cases hkey : keyOrder (keyAt keyed x) (keyAt keyed w) with
    | none => rfl
    | some o => exact absurd ((block_eq_of_keyOrder hkey).1.trans hwu) hapart
  obtain ⟨hu, hv⟩ := ne_null_of_keyOrder huv
  have hxu := hties u hu rfl
  have hxv := hties v hv hblock.symm
  have huv' : answer desc keyed u v = .eq :=
    Std.TransCmp.eq_trans (Std.OrientedCmp.eq_symm hxu) hxv
  have hcmp : orderCmp (keyAt keyed u) (keyAt keyed v) desc = .ok (directed desc .lt) :=
    (orderCmp_ok_iff hu hv).mpr (huv.trans (by cases desc <;> rfl))
  rw [answer_eq, hcmp] at huv'
  cases desc <;> cases huv'

/-! ## What a sort returns -/

/-- What is asked of a sort by keys: it never panics, it fails exactly where two keys that are not
null cannot be compared, and otherwise it brings the items into the order of the keys, those of
equal keys in the order in which they stood. -/
structure SortCorrect (sort : StableSort) (desc : Bool) (keyed : List (Value × Value)) : Prop where
  returns : ∃ outcome, sortKeyed sort desc keyed = some outcome
  failed_iff : ∀ outcome, sortKeyed sort desc keyed = some outcome →
    ((∃ e, outcome = .error e) ↔
      ∃ i j, i ≠ j ∧ Incomparable (keyAt keyed i) (keyAt keyed j))
  sorted : ∀ items, sortKeyed sort desc keyed = some (.ok items) →
    ∃ order : List (Fin keyed.length), order.Perm (List.finRange keyed.length) ∧
      items = order.map (fun i => (keyed.get i).2) ∧
      order.Pairwise fun i j => Precedes desc (keyAt keyed i) (keyAt keyed j) ∨
        Ties (keyAt keyed i) (keyAt keyed j) ∧ i < j

variable {sort : StableSort}

theorem keptFailure_isSome_iff {asked : List (Fin keyed.length × Fin keyed.length)} :
    (keptFailure desc keyed asked).isSome = true ↔
      ∃ p ∈ asked, Incomparable (keyAt keyed p.1) (keyAt keyed p.2) := by
  rw [keptFailure, List.findSome?_isSome_iff]
  refine exists_congr fun p => and_congr_right fun _ => ?_
  rw [← @orderCmp_eq_error_iff _ _ desc, keyAt, keyAt]
  cases orderCmp (keyed.get p.1).1 (keyed.get p.2).1 desc <;> simp

/-- A sort that comes to an end has met each failure that there is. -/
theorem exists_asked_iff {r : List (Fin keyed.length) × List (Fin keyed.length × Fin keyed.length)}
    (hrun : (sort.tree keyed.length).run (answer desc keyed) = some r) :
    (∃ p ∈ r.2, Incomparable (keyAt keyed p.1) (keyAt keyed p.2)) ↔
      ∃ i j, i ≠ j ∧ Incomparable (keyAt keyed i) (keyAt keyed j) := by
  constructor
  · rintro ⟨p, hp, hincomparable⟩
    exact ⟨p.1, p.2, SortTree.ne_of_asked hrun p hp, hincomparable⟩
  · rintro ⟨i, j, hne, hincomparable⟩
    have happart : ∀ order, Stable (blockOrder 1 desc keyed) order →
        ¬ Stable (blockOrder (-1) desc keyed) order := by
      intro order h h'
      rcases blockOrder_of_incomparable hne hincomparable with ⟨hlt, hgt⟩ | ⟨hlt, hgt⟩
      · exact h.not_both inferInstance hlt hgt h'
      · exact h'.not_both inferInstance hlt hgt h
    obtain ⟨p, hp, hdiffers⟩ := sort.exists_asked_ne hrun inferInstance inferInstance happart
    refine ⟨p, hp, ?_⟩
    by_contra hcomparable
    rcases hdiffers with hdiffers | hdiffers
    · exact hdiffers (blockOrder_eq_answer 1 hcomparable).symm
    · exact hdiffers (blockOrder_eq_answer (-1) hcomparable).symm

/-- A sort by keys is right unless it panics. -/
theorem sortCorrect_of_run
    {r : List (Fin keyed.length) × List (Fin keyed.length × Fin keyed.length)}
    (hrun : (sort.tree keyed.length).run (answer desc keyed) = some r) :
    SortCorrect sort desc keyed := by
  have hsort : sortKeyed sort desc keyed = some (match keptFailure desc keyed r.2 with
      | some e => .error e
      | none => .ok (r.1.map fun i => (keyed.get i).2)) := by
    rw [sortKeyed, hrun, Option.map_some]
  have hfailed : (keptFailure desc keyed r.2).isSome = true ↔
      ∃ i j, i ≠ j ∧ Incomparable (keyAt keyed i) (keyAt keyed j) :=
    keptFailure_isSome_iff.trans (exists_asked_iff hrun)
  constructor
  case returns => exact ⟨_, hsort⟩
  case failed_iff =>
    intro outcome houtcome
    rw [hsort] at houtcome
    rw [← hfailed, ← Option.some.inj houtcome]
    cases keptFailure desc keyed r.2 <;> simp
  case sorted =>
    intro items hitems
    rw [hsort] at hitems
    cases hkept : keptFailure desc keyed r.2 with
    | some e =>
        rw [hkept] at hitems
        cases hitems
    | none =>
        rw [hkept] at hitems hfailed
        have hall : ∀ i j, i ≠ j → ¬ Incomparable (keyAt keyed i) (keyAt keyed j) :=
          fun i j hne h => Bool.false_ne_true (hfailed.mpr ⟨i, j, hne, h⟩)
        obtain ⟨order, asked, hsorted, hperm, horder⟩ :=
          sort.sorted _ _ (Consistent.transCmp (.inl hall) desc)
        cases hrun.symm.trans hsorted
        refine ⟨order, hperm, (Except.ok.inj (Option.some.inj hitems)).symm, ?_⟩
        refine (horder.and (hperm.nodup_iff.mpr (List.nodup_finRange _))).imp ?_
        rintro i j ⟨hanswer, hne⟩
        have hcmp : orderCmp (keyAt keyed i) (keyAt keyed j) desc = .ok (answer desc keyed i j) :=
          orderCmp_eq_answer (hall i j hne)
        rcases hanswer with hlt | ⟨heq, hij⟩
        · rw [hlt] at hcmp
          exact .inl (orderCmp_eq_lt_iff.mp hcmp)
        · rw [heq] at hcmp
          exact .inr ⟨orderCmp_eq_eq_iff.mp hcmp, hij⟩

/-- The sort by keys does what is asked of it, whatever stable sort is used, where the keys can be
compared or none comes before another one. -/
theorem sortKeyed_correct_iff :
    (∀ sort, SortCorrect sort desc keyed) ↔ Consistent keyed := by
  constructor
  · intro h
    by_contra hnot
    have hpanics : (StableSort.cautious.tree keyed.length).run (answer desc keyed) = none :=
      StableSort.cautious_panics answer_self fun htrans => hnot (consistent_of_transCmp htrans)
    obtain ⟨outcome, houtcome⟩ := (h .cautious).returns
    rw [sortKeyed, hpanics] at houtcome
    cases houtcome
  · intro h sort
    obtain ⟨order, asked, hrun, -⟩ := sort.sorted _ _ (h.transCmp desc)
    exact sortCorrect_of_run hrun

end

end CScript
