import CScript.Runtime.IntegersExact

/-!
# The law of integers

One lemma for each receiver: what its arms check before they compute, and what is left out.
-/
namespace CScript.Integers

open Lib

namespace Holds

variable {α β : Type} {P : α → Prop} {Q : β → Prop} {x : Except Fault α}

theorem bind {f : α → Except Fault β} (h : Holds P x) (next : ∀ a, P a → Holds Q (f a)) :
    Holds Q (x >>= f) := by
  cases x with
  | ok a => exact next a h
  | error e =>
      cases e with
      | error e => trivial
      | panic => exact h.elim

theorem imp {P' : α → Prop} (h : Holds P x) (weaker : ∀ a, P a → P' a) : Holds P' x := by
  cases x with
  | ok a => exact weaker a h
  | error e =>
      cases e with
      | error e => trivial
      | panic => exact h.elim

theorem ite {q : Prop} [Decidable q] {y : Except Fault α} (yes : q → Holds P x)
    (no : ¬q → Holds P y) : Holds P (if q then x else y) := by
  split
  case isTrue holds => exact yes holds
  case isFalse fails => exact no fails

theorem of_lift {x : Except RuntimeError α} (h : ∀ a, x = .ok a → P a) : Holds P (lift x) := by
  cases x with
  | ok a => exact h a rfl
  | error e => trivial

theorem lift_int {v : Value} {f : I64 → Except Fault β} (h : ∀ n, v = .int n → Holds Q (f n)) :
    Holds Q (lift (asInt v) >>= f) := by
  apply bind (P := fun n => v = .int n)
  · apply of_lift
    intro n found
    cases v with
    | int m => rw [← Except.ok.inj found]
    | _ => exact nomatch found
  · exact h

theorem checked {f : I64 → Value} {e : RuntimeError} {P : Value → Prop} {o : Option I64}
    (exact : ∀ n, o = some n → P (f n)) : Holds P (lift (f <$> orError e o)) := by
  cases o with
  | none => trivial
  | some n => exact exact n rfl

end Holds

theorem forall_mem_some {α : Type} {P : α → Prop} {a : α} : (∀ r ∈ some a, P r) ↔ P a :=
  ⟨fun h => h a rfl, fun h _ same => Option.some.inj same ▸ h⟩

/-! ## The machine -/

section Machine

variable {n : I64}

theorem plain_of_inRange {m : Int} (h : InRange 64 m) (checks : Bool) :
    plain checks m = .ok (.ofInt m h) := by
  rw [plain, SInt.ofInt?_eq_some h]

theorem bmod_of_inRange {m : Int} (h : InRange 64 m) : m.bmod (2 ^ 64) = m := by
  obtain ⟨low, high⟩ := h
  apply Int.bmod_eq_of_le_mul_two <;> omega

theorem toInt_wrap {m : Int} (h : InRange 64 m) : (wrap m).toInt = m := bmod_of_inRange h

theorem asUsize_of_nonneg (h : 0 ≤ n.toInt) : asUsize n = n.toInt.toNat := by
  have bounds := n.inRange.2
  rw [asUsize, Int.emod_eq_of_lt h (by omega)]

theorem large_asUsize_of_neg (h : n.toInt < 0) : 2 ^ 63 ≤ asUsize n := by
  have bounds := n.inRange.1
  rw [asUsize, ← Int.add_emod_right, Int.emod_eq_of_lt (by omega) (by omega)]
  omega

theorem toInt_ofUsize {m : Nat} (h : FitsMemory m) : (ofUsize m).toInt = m := by
  rw [FitsMemory] at h
  exact toInt_wrap ⟨by omega, by omega⟩

end Machine

theorem length_le_asBytes (cs : List Char) : cs.length ≤ (asBytes cs).length := by
  induction cs with
  | nil => exact Nat.le_refl _
  | cons c cs ih =>
      have pos : 0 < (String.utf8EncodeChar c).length := by
        rw [String.length_utf8EncodeChar]
        exact c.utf8Size_pos
      rw [asBytes_cons, List.length_append, List.length_cons]
      omega

theorem Text.fits_length (s : Text) : FitsMemory s.length :=
  Nat.lt_of_le_of_lt (length_le_asBytes s.chars) s.fits

/-! ## Operators -/

section Operators

variable {op : BinaryOp} {k : Kind} {a b : I64}

/-- A checked operator gives an error or what it is in the unbounded integers. -/
theorem holds_checked {e : RuntimeError} {m : Int}
    (exact : arithmetic op a.toInt b.toInt = some m) :
    Holds (Exact (.binary op k a b)) (lift (k.value <$> orError e (SInt.ofInt? 64 m))) := by
  apply Holds.checked
  intro n found
  exact .arithmetic (by rw [exact, SInt.toInt_of_ofInt? found])

theorem holds_checkedDiv {e : RuntimeError} :
    Holds (Exact (.binary .div k a b)) (lift (k.value <$> orError e (a.checkedDiv b))) := by
  rw [SInt.checkedDiv]
  split
  case isTrue => trivial
  case isFalse nonzero => exact holds_checked (if_neg nonzero)

theorem holds_checkedRem {e : RuntimeError} :
    Holds (Exact (.binary .rem k a b)) (lift (k.value <$> orError e (a.checkedRem b))) := by
  rw [SInt.checkedRem]
  split
  case isTrue => trivial
  case isFalse some =>
    have nonzero : b.toInt ≠ 0 := by
      intro zero
      rw [SInt.checkedDiv, if_pos zero] at some
      exact some rfl
    exact holds_checked (if_neg nonzero)

theorem holds_bool {t : Bool} (exact : comparison op a.toInt b.toInt = some t) :
    Holds (Exact (.binary op k a b)) (.ok (.bool t)) := .comparison exact

theorem veq_value : ((k.value a).veq (k.value b)) = decide (a.toInt = b.toInt) := by
  have same : decide (a = b) = decide (a.toInt = b.toInt) :=
    decide_eq_decide.mpr ⟨congrArg SInt.toInt, SInt.ext⟩
  cases k <;> (rw [Kind.value, Kind.value, Value.veq]; exact same)

theorem compare_value (accept : Ordering → Bool) :
    lift (CScript.compare (k.value a) (k.value b) accept) =
      .ok (.bool (accept (Ord.compare a.toInt b.toInt))) := by
  cases k <;> rfl

theorem compare_cases (x y : Int) :
    (x < y ∧ Ord.compare x y = .lt) ∨ (x = y ∧ Ord.compare x y = .eq) ∨
      (y < x ∧ Ord.compare x y = .gt) := by
  rcases Int.lt_trichotomy x y with lt | same | gt
  · exact .inl ⟨lt, compare_lt_iff_lt.mpr lt⟩
  · exact .inr (.inl ⟨same, compare_eq_iff_eq.mpr same⟩)
  · exact .inr (.inr ⟨gt, compare_gt_iff_gt.mpr gt⟩)

/-- The relational operators read the order of two integers. -/
theorem holds_compare {accept : Ordering → Bool}
    (reads : ∀ x y : Int, comparison op x y = some (accept (Ord.compare x y))) :
    Holds (Exact (.binary op k a b)) (lift (CScript.compare (k.value a) (k.value b) accept)) := by
  rw [compare_value]
  exact holds_bool (reads _ _)

theorem binary_lawful (op : BinaryOp) (k : Kind) (a b : I64) :
    Holds (Exact (.binary op k a b)) (lift (applyBinary op (k.value a) (k.value b))) := by
  cases op with
  | add =>
      cases k with
      | timestamp => trivial
      | _ => exact holds_checked rfl
  | sub =>
      cases k with
      | timestamp => trivial
      | _ => exact holds_checked rfl
  | mul =>
      cases k with
      | timestamp => trivial
      | _ => exact holds_checked rfl
  | div =>
      cases k with
      | timestamp => trivial
      | _ => exact holds_checkedDiv
  | rem =>
      cases k with
      | timestamp => trivial
      | _ => exact holds_checkedRem
  | eq => exact holds_bool (by rw [veq_value]; rfl)
  | notEq =>
      apply holds_bool
      rw [veq_value, comparison, decide_not]
  | lt =>
      apply holds_compare
      intro x y
      rcases compare_cases x y with ⟨h, e⟩ | ⟨h, e⟩ | ⟨h, e⟩ <;> rw [e]
      · exact congrArg some (decide_eq_true h)
      · exact congrArg some (decide_eq_false (h ▸ lt_irrefl _))
      · exact congrArg some (decide_eq_false h.not_gt)
  | ltEq =>
      apply holds_compare
      intro x y
      rcases compare_cases x y with ⟨h, e⟩ | ⟨h, e⟩ | ⟨h, e⟩ <;> rw [e]
      · exact congrArg some (decide_eq_true h.le)
      · exact congrArg some (decide_eq_true h.le)
      · exact congrArg some (decide_eq_false h.not_ge)
  | gt =>
      apply holds_compare
      intro x y
      rcases compare_cases x y with ⟨h, e⟩ | ⟨h, e⟩ | ⟨h, e⟩ <;> rw [e]
      · exact congrArg some (decide_eq_false h.not_gt)
      · exact congrArg some (decide_eq_false (h ▸ lt_irrefl _))
      · exact congrArg some (decide_eq_true h)
  | gtEq =>
      apply holds_compare
      intro x y
      rcases compare_cases x y with ⟨h, e⟩ | ⟨h, e⟩ | ⟨h, e⟩ <;> rw [e]
      · exact congrArg some (decide_eq_false h.not_ge)
      · exact congrArg some (decide_eq_true h.ge)
      · exact congrArg some (decide_eq_true h.le)
  | _ => trivial

theorem neg_lawful (k : Kind) (a : I64) :
    Holds (Exact (.neg k a)) (lift (applyUnary .neg (k.value a))) := by
  have checked : ∀ {e : RuntimeError},
      Holds (Exact (.neg k a)) (lift (k.value <$> orError e a.checkedNeg)) := by
    intro e
    apply Holds.checked
    intro n found
    exact .neg (SInt.toInt_of_ofInt? found)
  cases k with
  | timestamp => trivial
  | _ => exact checked

theorem index_lawful (items : Items) (n : I64) :
    Holds (Exact (.index items n)) (lift (indexValue (.list items.toList) n)) := by
  rw [indexValue]
  split
  case isTrue => trivial
  case isFalse nonneg =>
    split
    case h_1 v item => exact .index (Int.not_lt.mp nonneg) item
    case h_2 => trivial

end Operators

/-! ## Lists -/

/-- A sum without an error is the sum of the integers of the list. -/
theorem sumFrom_holds : ∀ (items : List Value) (total : I64),
    Holds (fun v => ∃ (n : I64) (ns : List I64), v = .int n ∧ items = ns.map .int ∧
      n.toInt = total.toInt + (ns.map SInt.toInt).sum) (sumFrom total items) := by
  intro items
  induction items with
  | nil => exact fun total => ⟨total, [], rfl, rfl, (Int.add_zero _).symm⟩
  | cons item items ih =>
      intro total
      rw [sumFrom]
      apply Holds.lift_int
      intro m same
      split
      case h_2 => trivial
      case h_1 next added =>
        have sum := SInt.toInt_of_ofInt? added
        apply (ih next).imp
        rintro v ⟨n, ns, value, ints, exact⟩
        refine ⟨n, m :: ns, value, by rw [same, ints]; rfl, ?_⟩
        rw [exact, sum, List.map_cons, List.sum_cons, Int.add_assoc]

theorem isPosition_positionOr {α : Type} (p : α → Bool) (items : List α)
    (fits : items.length ≤ 2 ^ 63) : IsPosition p items (positionOr p items).toInt := by
  rw [positionOr]
  split
  case h_1 i found =>
    obtain ⟨lt, holds, before⟩ := List.findIdx?_eq_some_iff_getElem.mp found
    refine .inl ⟨i, items[i], List.getElem?_eq_getElem lt, holds,
      toInt_ofUsize (Nat.lt_of_lt_of_le lt fits), ?_⟩
    intro j less w item
    obtain ⟨_, rfl⟩ := List.getElem?_eq_some_iff.mp item
    exact Bool.eq_false_iff.mpr (before j less)
  case h_2 none =>
    exact .inr ⟨rfl, List.findIdx?_eq_none_iff.mp none⟩

section Lists

variable {checks : Bool} {items : Items} {args : List Value}

theorem sum_lawful : Holds (Exact (.list items "sum" args)) (sumFrom zero items.toList) := by
  apply (sumFrom_holds items.toList zero).imp
  rintro v ⟨n, ns, rfl, ints, exact⟩
  exact .sum ns ints (exact.trans (Int.zero_add _))

theorem slice_lawful {start stop : I64} :
    Holds (Exact (.list items "slice" (.int start :: .int stop :: args)))
      (slice checks items start stop) := by
  have length := toInt_ofUsize items.fits
  have range := stop.inRange
  refine .ite (fun _ => trivial) fun inside => ?_
  rw [length] at inside
  have nonneg : 0 ≤ start.toInt := by omega
  have le : start.toInt ≤ stop.toInt := by omega
  have count : InRange 64 (stop.toInt - start.toInt) := by
    rw [InRange] at range ⊢
    omega
  rw [plain_of_inRange count, asUsize_of_nonneg nonneg]
  change Exact _ (.list ((items.toList.drop start.toInt.toNat).take (asUsize (.ofInt _ count))))
  rw [asUsize_of_nonneg (by rw [SInt.toInt_ofInt]; omega)]
  exact .slice nonneg le (by omega)

/-- What is taken is exact for a count that is not negative, and from an empty list. -/
theorem take_lawful_iff {n : I64} :
    Exact (.list items "take" (.int n :: args)) (.list (items.toList.take (asUsize n))) ↔
      0 ≤ n.toInt ∨ items.toList = [] := by
  have exactly : ∀ {c : IntegerCall} {v : Value}, Exact c v →
      c = .list items "take" (.int n :: args) → v = .list (items.toList.take n.toInt.toNat) := by
    intro c v exact same
    cases exact with
    | take =>
        injection same with same _ int
        injection int with int
        injection int with int
        rw [same, int]
    | listLength | sum | slice | listIndexOf =>
        injection same with _ method
        exact absurd method (by decide)
    | _ => exact nomatch same
  constructor
  · intro exact
    rcases lt_or_ge n.toInt 0 with neg | nonneg
    · have all := exactly exact rfl
      have large : items.toList.length ≤ asUsize n :=
        (Nat.le_of_lt items.fits).trans (large_asUsize_of_neg neg)
      rw [List.take_of_length_le large, Int.toNat_of_nonpos (by omega), List.take_zero] at all
      injection all with all
      exact .inr all
    · exact .inl nonneg
  · intro safe
    rcases safe with nonneg | empty
    · rw [asUsize_of_nonneg nonneg]
      exact .take
    · rw [empty, List.take_nil, ← List.take_nil (i := n.toInt.toNat), ← empty]
      exact .take

theorem list_lawful_iff (method : String) :
    (∀ r ∈ listMethod checks items method args, Holds (Exact (.list items method args)) r) ↔
      (method = "take" → ∀ n ∈ firstInt args, 0 ≤ n.toInt ∨ items.toList = []) := by
  rw [listMethod.eq_def]
  split
  case isTrue take =>
    subst take
    rw [forall_mem_some]
    refine Iff.trans ?_ (forall_prop_of_true rfl).symm
    cases args with
    | nil => exact iff_of_true trivial (by rintro n ⟨⟩)
    | cons v args =>
        cases v with
        | int n =>
            rw [firstInt, forall_mem_some]
            exact take_lawful_iff
        | _ => exact iff_of_true trivial (by rintro n ⟨⟩)
  case isFalse other =>
    refine iff_of_true ?_ fun take => absurd take other
    split
    case isTrue length =>
      subst length
      exact forall_mem_some.mpr (.listLength (toInt_ofUsize items.fits))
    split
    case isTrue sum =>
      subst sum
      exact forall_mem_some.mpr sum_lawful
    split
    case isTrue slice =>
      subst slice
      rw [forall_mem_some]
      split
      case h_1 => exact slice_lawful
      case h_2 => trivial
    split
    case isTrue indexOf =>
      subst indexOf
      rw [forall_mem_some]
      split
      case h_1 => trivial
      case h_2 => exact .listIndexOf (isPosition_positionOr _ _ (Nat.le_of_lt items.fits))
    case isFalse => exact (by rintro r ⟨⟩)

end Lists

/-! ## Strings -/

section Strings

variable {checks : Bool} {s : Text} {args : List Value}

theorem substring_lawful {start stop : I64} :
    Holds (Exact (.str s "substring" (.int start :: .int stop :: args)))
      (substring checks s start stop) := by
  have length := toInt_ofUsize s.fits_length
  have range := stop.inRange
  refine .ite (fun _ => trivial) fun inside => ?_
  rw [length] at inside
  have nonneg : 0 ≤ start.toInt := by omega
  have le : start.toInt ≤ stop.toInt := by omega
  have count : InRange 64 (stop.toInt - start.toInt) := by
    rw [InRange] at range ⊢
    omega
  rw [plain_of_inRange count, asUsize_of_nonneg nonneg]
  change Exact _ (Text.value ((s.chars.drop start.toInt.toNat).take (asUsize (.ofInt _ count))))
  rw [asUsize_of_nonneg (by rw [SInt.toInt_ofInt]; omega)]
  exact .substring nonneg le (by omega)

/-- Padding fills up to the length that is asked for. -/
theorem padToLength_holds {P : Value → Prop} {name : String} {target : I64} {pad : List Char}
    {atStart : Bool} {n : Nat} (exact : n = (target.toInt - s.length).toNat)
    (filled : P (Text.value
      (bif atStart then filling pad n ++ s.chars else s.chars ++ filling pad n))) :
    Holds P (padToLength checks name s target pad atStart) := by
  have length := toInt_ofUsize s.fits_length
  have range := target.inRange
  rw [padToLength]
  split
  case isTrue => trivial
  split
  case isTrue => trivial
  dsimp only
  rw [length]
  split
  case isTrue short =>
    have none : n = 0 := by omega
    rw [none, filling, List.range_zero, List.map_nil, List.append_nil, List.nil_append,
      Bool.cond_self] at filled
    exact filled
  case isFalse long =>
    have count : InRange 64 (target.toInt - s.length) := by
      rw [InRange] at range ⊢
      omega
    rw [plain_of_inRange count]
    change Holds _ (if pad = [] then _ else _)
    split
    case isTrue => trivial
    case isFalse =>
      rw [asUsize_of_nonneg (by rw [SInt.toInt_ofInt]; omega), SInt.toInt_ofInt, ← exact]
      cases atStart <;> exact filled

theorem repeated_lawful {n : I64} :
    Holds (Exact (.str s "repeat" (.int n :: args))) (repeated s n) := by
  refine .ite (fun _ => trivial) fun nonneg => .ite (fun _ => trivial) fun _ => ?_
  rw [asUsize_of_nonneg (Int.not_lt.mp nonneg)]
  exact .repeated (Int.not_lt.mp nonneg)

theorem charAt_lawful {n : I64} :
    Holds (Exact (.str s "charAt" (.int n :: args))) (charAt s n) := by
  have length := toInt_ofUsize s.fits_length
  refine .ite (fun _ => trivial) fun inside => ?_
  rw [length] at inside
  have nonneg : 0 ≤ n.toInt := by omega
  rw [asUsize_of_nonneg nonneg]
  split
  case h_1 ch item => exact .charAt nonneg item
  case h_2 none =>
    have long := List.getElem?_eq_none_iff.mp none
    rw [Text.length] at inside
    omega

theorem truncate_lawful {n : I64} {suffix : String} :
    Holds (Exact (.str s "truncate" (.int n :: .str suffix :: args)))
      (truncate s n suffix.toList) := by
  refine .ite (fun _ => trivial) fun neg => ?_
  have nonneg := Int.not_lt.mp neg
  rw [asUsize_of_nonneg nonneg]
  refine .ite (fun short => .whole (by omega)) fun long => ?_
  have keep : n.toInt.toNat - suffix.toList.length =
      (n.toInt - suffix.toList.length).toNat := by omega
  rw [keep]
  exact .truncate nonneg (by omega)

theorem indexOf_exact {needle : List Char} :
    IsPosition (fun i => needle.isPrefixOf (s.chars.drop i)) (List.range (s.length + 1))
      (indexOf s needle).toInt := by
  apply isPosition_positionOr
  rw [List.length_range]
  exact s.fits_length

theorem str_lawful (method : String) :
    ∀ r ∈ strMethod checks s method args, Holds (Exact (.str s method args)) r := by
  rw [strMethod.eq_def]
  split
  case isTrue length =>
    subst length
    exact forall_mem_some.mpr (.strLength (toInt_ofUsize s.fits_length))
  split
  case isTrue substring =>
    subst substring
    rw [forall_mem_some]
    split
    case h_1 => exact substring_lawful
    case h_2 => trivial
  split
  case isTrue padStart =>
    subst padStart
    rw [forall_mem_some]
    split
    case h_1 => exact padToLength_holds rfl .padStart
    case h_2 => trivial
  split
  case isTrue padEnd =>
    subst padEnd
    rw [forall_mem_some]
    split
    case h_1 => exact padToLength_holds rfl .padEnd
    case h_2 => trivial
  split
  case isTrue again =>
    subst again
    rw [forall_mem_some]
    split
    case h_1 => exact repeated_lawful
    case h_2 => trivial
  split
  case isTrue indexOf =>
    subst indexOf
    rw [forall_mem_some]
    split
    case h_1 => exact .strIndexOf indexOf_exact
    case h_2 => trivial
  split
  case isTrue charAt =>
    subst charAt
    rw [forall_mem_some]
    split
    case h_1 => exact charAt_lawful
    case h_2 => trivial
  split
  case isTrue truncate =>
    subst truncate
    rw [forall_mem_some]
    split
    case h_1 => exact truncate_lawful
    case h_2 => trivial
  case isFalse => exact fun r none => nomatch none

end Strings

/-! ## Numbers -/

theorem int_lawful (n : I64) (method : String) :
    ∀ r ∈ intMethod n method, Holds (Exact (.int n method)) r := by
  rw [intMethod.eq_def]
  split
  case isTrue same =>
    subst same
    exact forall_mem_some.mpr .toInt64
  case isFalse => exact fun r none => nomatch none

theorem int64_lawful (n : I64) (method : String) :
    ∀ r ∈ int64Method n method, Holds (Exact (.int64 n method)) r := by
  rw [int64Method.eq_def]
  split
  case isTrue same =>
    subst same
    exact forall_mem_some.mpr .toInt
  case isFalse => exact fun r none => nomatch none

/-- A cast gives the whole number if and only if it is an integer of 64 bits. -/
theorem castI64_iff (x : F64) (whole : Int) :
    IsFinite x ∧ (castI64 x whole).toInt = whole ↔ Castable x whole := by
  apply and_congr_right
  intro finite
  cases x with
  | nan => exact finite.elim
  | inf => exact finite.elim
  | finite neg mag fits bounded =>
      have value : (castI64 (.finite neg mag fits bounded) whole).toInt =
          max (-2 ^ 63) (min whole (2 ^ 63 - 1)) := rfl
      rw [value, InRange]
      omega

theorem float_lawful_iff (x : F64) (method : String) :
    (∀ r ∈ floatMethod x method, Holds (Exact (.float x method)) r) ↔
      (method = "toInt" → Castable x (truncated x)) := by
  rw [floatMethod.eq_def]
  split
  case isTrue same =>
    subst same
    rw [forall_mem_some, forall_prop_of_true rfl, ← castI64_iff]
    constructor
    · intro exact
      cases exact with
      | floatToInt finite exact => exact ⟨finite, exact⟩
    · exact fun both => .floatToInt both.1 both.2
  case isFalse other => exact iff_of_true (fun r none => nomatch none) fun same => absurd same other

theorem math_lawful_iff (method : String) (x : F64) :
    (∀ r ∈ mathMethod method x, Holds (Exact (.math method x)) r) ↔
      ∀ whole ∈ wholeOf method x, Castable x whole := by
  have arms : mathMethod method x =
      (wholeOf method x).map fun whole => .ok (.int (castI64 x whole)) := by
    rw [mathMethod, wholeOf]
    split_ifs <;> rfl
  rw [arms]
  cases known : wholeOf method x with
  | none => exact iff_of_true (fun r none => nomatch none) fun whole none => nomatch none
  | some whole =>
      rw [Option.map_some, forall_mem_some, forall_mem_some, ← castI64_iff]
      constructor
      · intro exact
        cases exact with
        | math finite exact => exact ⟨finite, (Option.some.inj (known.symm.trans exact)).symm⟩
      · exact fun both => .math both.1 (known.trans (congrArg some both.2.symm))

/-! ## Instants -/

section Instants

variable {checks : Bool} {ms : I64} {args : List Value}

theorem addMillis_lawful {n : I64} :
    Holds (Exact (.timestamp ms "addMillis" (.int64 n :: args)))
      (match ms.checkedAdd n with
        | some t => .ok (.timestamp t)
        | none => fail "desborde aritmético al sumar milisegundos a un Timestamp") := by
  split
  case h_1 t added => exact .addMillis (SInt.toInt_of_ofInt? added)
  case h_2 => trivial

theorem addUnits_lawful {method : String} {unit : Int} {verb : String}
    (known : unitMillis method = some unit) :
    Holds (Exact (.timestamp ms method args)) (addUnits ms method unit verb args) := by
  rw [addUnits.eq_def]
  split
  case h_2 => trivial
  case h_1 n args =>
    rw [checkedTimestampOffset]
    split
    case h_2 => trivial
    case h_1 t sum =>
      obtain ⟨delta, product, added⟩ := Option.bind_eq_some_iff.mp sum
      refine .addUnits known ?_
      rw [← SInt.toInt_of_ofInt? product]
      exact SInt.toInt_of_ofInt? added

theorem exact_diffMillis {c : IntegerCall} {other : I64} {v : Value} (exact : Exact c v)
    (call : c = .timestamp ms "diffMillis" (.timestamp other :: args)) :
    InRange 64 (ms.toInt - other.toInt) := by
  cases exact with
  | toMillis =>
      injection call with _ method
      exact absurd method (by decide)
  | @diffMillis ms' other' n _ exact =>
      injection call with same _ rest
      injection rest with first
      injection first with other_eq
      rw [← same, ← other_eq, ← exact]
      exact n.inRange
  | addMillis =>
      injection call with _ method
      exact absurd method (by decide)
  | addUnits =>
      injection call with _ _ rest
      injection rest with first
      exact nomatch first
  | _ => exact nomatch call

/-- A difference without a check is exact if and only if it is in range. -/
theorem diffMillis_lawful_iff {other : I64} :
    Holds (Exact (.timestamp ms "diffMillis" (.timestamp other :: args)))
        (plain checks (ms.toInt - other.toInt) >>= fun diff => .ok (.int64 diff)) ↔
      InRange 64 (ms.toInt - other.toInt) := by
  by_cases range : InRange 64 (ms.toInt - other.toInt)
  case pos =>
    rw [plain_of_inRange range]
    exact iff_of_true (.diffMillis rfl) range
  case neg =>
    refine iff_of_false ?_ range
    rw [plain, SInt.ofInt?_eq_none range]
    cases checks with
    | true => exact id
    | false => exact fun exact => range (exact_diffMillis exact rfl)

theorem timestamp_lawful_iff (method : String) :
    (∀ r ∈ timestampMethod checks ms method args, Holds (Exact (.timestamp ms method args)) r) ↔
      (method = "diffMillis" →
        ∀ other ∈ firstInstant args, InRange 64 (ms.toInt - other.toInt)) := by
  rw [timestampMethod.eq_def]
  split
  case isTrue same =>
    subst same
    exact iff_of_true (forall_mem_some.mpr .toMillis) fun same => absurd same (by decide)
  split
  case isTrue same =>
    subst same
    rw [forall_mem_some, forall_prop_of_true rfl]
    cases args with
    | nil => exact iff_of_true trivial fun n none => nomatch none
    | cons v args =>
        cases v with
        | timestamp other =>
            rw [firstInstant, forall_mem_some]
            exact diffMillis_lawful_iff
        | _ => exact iff_of_true trivial fun n none => nomatch none
  case isFalse other =>
  refine iff_of_true ?_ fun same => absurd same other
  split
  case isTrue same =>
    subst same
    rw [forall_mem_some]
    split
    case h_1 => exact addMillis_lawful
    case h_2 => trivial
  split
  case isTrue same =>
    subst same
    exact forall_mem_some.mpr (addUnits_lawful rfl)
  split
  case isTrue same =>
    subst same
    exact forall_mem_some.mpr (addUnits_lawful rfl)
  split
  case isTrue same =>
    subst same
    exact forall_mem_some.mpr (addUnits_lawful rfl)
  split
  case isTrue same =>
    subst same
    exact forall_mem_some.mpr (addUnits_lawful rfl)
  case isFalse => exact fun r none => nomatch none

/-- A date that is built has the text of its parts. -/
theorem dateFromParts_lawful (args : List Value) :
    Holds (Exact (.dateFromParts args)) (callDateFromParts args) := by
  rw [callDateFromParts.eq_def]
  split
  case h_2 => trivial
  case h_1 year month day hour minute second =>
    apply Holds.lift_int
    rintro year rfl
    apply Holds.lift_int
    rintro month rfl
    apply Holds.lift_int
    rintro day rfl
    apply Holds.lift_int
    rintro hour rfl
    apply Holds.lift_int
    rintro minute rfl
    apply Holds.lift_int
    rintro second rfl
    have part : ∀ {name : String} {low high : Int} {n : I64},
        Holds (fun _ => True) (checkPart name low high n) := by
      intro name low high n
      exact .ite (fun _ => trivial) fun _ => trivial
    rw [dateFromParts]
    apply part.bind
    intro _ _
    apply part.bind
    intro _ _
    apply part.bind
    intro _ _
    apply part.bind
    intro _ _
    apply part.bind
    intro _ _
    apply part.bind
    intro _ _
    split
    case h_1 ms parsed => exact .dateFromParts (format_of_parseIso8601String parsed)
    case h_2 => trivial

end Instants

/-! ## Random integers and ranges -/

theorem randomInt_lawful (draws : List (Fin (2 ^ 64))) (args : List Value) :
    ∀ r ∈ randomInt draws args, Holds (Exact (.randomInt draws args)) r := by
  rw [randomInt.eq_def]
  split
  case h_2 => exact forall_mem_some.mpr trivial
  case h_1 low high args =>
    have bounds := low.inRange
    have bounds' := high.inRange
    rw [InRange] at bounds bounds'
    split
    case isTrue => exact forall_mem_some.mpr trivial
    case isFalse le =>
    -- an offset inside the range of the bounds
    have offset : ∀ n : Nat, n < (high.toInt - low.toInt).toNat + 1 →
        Exact (.randomInt draws (.int low :: .int high :: args)) (.int (wrap (low.toInt + n))) := by
      intro n inside
      have value : (wrap (low.toInt + n)).toInt = low.toInt + n :=
        toInt_wrap ⟨by omega, by omega⟩
      exact .randomInt (by omega) (by omega)
    dsimp only
    split
    case isTrue whole =>
      intro r drawn
      obtain ⟨n, -, rfl⟩ := Option.map_eq_some_iff.mp drawn
      exact offset n.val (by omega)
    case isFalse =>
      intro r drawn
      obtain ⟨n, -, rfl⟩ := Option.map_eq_some_iff.mp drawn
      exact offset _ (Nat.mod_lt _ (Nat.succ_pos _))

/-- The variable of a range takes every integer from its start up to its end, and never leaves the
type. -/
theorem forRange_holds (checks : Bool) (stop : I64) : ∀ (budget : Nat) (i : I64),
    Holds (fun ns => ns.map SInt.toInt =
      (List.range (stop.toInt - i.toInt).toNat).map fun (k : Nat) => i.toInt + k)
      (forRange checks stop budget i) := by
  intro budget
  induction budget with
  | zero =>
      intro i
      rw [forRange]
      split
      case isTrue => trivial
      case isFalse done =>
        have none : (stop.toInt - i.toInt).toNat = 0 := by omega
        change _ = _
        rw [none]
        rfl
  | succ budget ih =>
      intro i
      rw [forRange]
      split
      case isFalse done =>
        have none : (stop.toInt - i.toInt).toNat = 0 := by omega
        change _ = _
        rw [none]
        rfl
      case isTrue more =>
        have bounds := i.inRange
        have bounds' := stop.inRange
        rw [InRange] at bounds bounds'
        have next : InRange 64 (i.toInt + 1) := ⟨by omega, by omega⟩
        rw [plain_of_inRange next]
        apply (ih (.ofInt _ next)).bind
        intro later exact
        rw [SInt.toInt_ofInt] at exact
        have count : (stop.toInt - i.toInt).toNat = (stop.toInt - (i.toInt + 1)).toNat + 1 := by
          omega
        change _ = _
        rw [List.map_cons, exact, count, List.range_succ_eq_map, List.map_cons, List.map_map]
        congr 1
        · exact (Int.add_zero _).symm
        · apply List.map_congr_left
          intro k _
          change _ = i.toInt + ((k + 1 : Nat) : Int)
          omega

theorem range_lawful (checks : Bool) (start stop : I64) (budget : Nat) :
    Holds (Exact (.range start stop budget))
      ((forRange checks stop budget start).map fun ns => .list (ns.map .int)) := by
  have visited := forRange_holds checks stop budget start
  revert visited
  cases forRange checks stop budget start with
  | ok ns => exact fun exact => .range ns exact
  | error e =>
      cases e with
      | error e => exact fun _ => trivial
      | panic => exact False.elim

/-! ## All calls -/

/-- A call gives an error or its exact value, in any build, if and only if it is safe. -/
theorem integers_lawful_iff (checks : Bool) (c : IntegerCall) : Lawful checks c ↔ c.Safe := by
  cases c with
  | binary op k a b => exact iff_of_true (forall_mem_some.mpr (binary_lawful op k a b)) trivial
  | neg k a => exact iff_of_true (forall_mem_some.mpr (neg_lawful k a)) trivial
  | index items n => exact iff_of_true (forall_mem_some.mpr (index_lawful items n)) trivial
  | list items method args => exact list_lawful_iff method
  | str s method args => exact iff_of_true (str_lawful method) trivial
  | int n method => exact iff_of_true (int_lawful n method) trivial
  | int64 n method => exact iff_of_true (int64_lawful n method) trivial
  | float x method => exact float_lawful_iff x method
  | math method x => exact math_lawful_iff method x
  | timestamp ms method args => exact timestamp_lawful_iff method
  | dateFromParts args =>
      exact iff_of_true (forall_mem_some.mpr (dateFromParts_lawful args)) trivial
  | randomInt draws args => exact iff_of_true (randomInt_lawful draws args) trivial
  | range start stop budget =>
      exact iff_of_true (forall_mem_some.mpr (range_lawful checks start stop budget)) trivial

/-- The difference between the latest instant and one before the epoch. -/
theorem diffMillis_unlawful : ¬∀ (checks : Bool) (c : IntegerCall), Lawful checks c := by
  intro all
  have lawful := all false (.timestamp (.ofInt (2 ^ 63 - 1) (by decide)) "diffMillis"
    [.timestamp (.ofInt (-1) (by decide))])
  have range := (@timestamp_lawful_iff false (.ofInt (2 ^ 63 - 1) (by decide))
    [.timestamp (.ofInt (-1) (by decide))] "diffMillis").mp lawful rfl _ rfl
  exact absurd range (by decide)

end CScript.Integers
