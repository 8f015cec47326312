import CScript.Lib.FloatText
import CScript.Lib.Utf8
import Mathlib.Data.List.TakeWhile

/-!
# Reading decimal numbers

The parts of a decimal number as a scanner takes them from a run of bytes: the digits before the
point, those after it and an exponent, each as far as it goes. Which parts a number may lack is
left to the reader.
-/
namespace CScript.Lib

/-- A byte of ASCII. -/
abbrev byteOf (c : Char) : UInt8 := asciiByte c

structure DecimalExponent where
  marker : UInt8
  sign : Option UInt8
  digits : List UInt8
  deriving DecidableEq

/-- A decimal number without its sign, as it is written. -/
structure DecimalText where
  whole : List UInt8
  fraction : Option (List UInt8)
  exponent : Option DecimalExponent
  deriving DecidableEq

namespace DecimalText

def fractionDigits (t : DecimalText) : List UInt8 := t.fraction.getD []

def fractionBytes : Option (List UInt8) → List UInt8
  | none => []
  | some ds => byteOf '.' :: ds

def exponentBytes : Option DecimalExponent → List UInt8
  | none => []
  | some e => e.marker :: (e.sign.toList ++ e.digits)

def bytes (t : DecimalText) : List UInt8 :=
  t.whole ++ (fractionBytes t.fraction ++ exponentBytes t.exponent)

/-- The number that a run of digits writes. -/
def digitsValue (ds : List UInt8) : Nat := ds.foldl (fun n d => 10 * n + (d.toNat - 48)) 0

def exponentValue (t : DecimalText) : Int :=
  t.exponent.elim 0 fun e =>
    if e.sign = some (byteOf '-') then -(digitsValue e.digits : Int) else digitsValue e.digits

/-- The float nearest to the number that is written. -/
def value (F : FloatFormat) (neg : Bool) (t : DecimalText) : Binary F :=
  Binary.ofDecimal F neg (digitsValue (t.whole ++ t.fractionDigits))
    (t.exponentValue - t.fractionDigits.length)

def isExponentMarker (b : UInt8) : Bool := b == byteOf 'e' || b == byteOf 'E'

def isSign (b : UInt8) : Bool := b == byteOf '+' || b == byteOf '-'

/-- The digits after a point, if one stands here. -/
def scanFraction : List UInt8 → Option (List UInt8) × List UInt8
  | b :: rest =>
      if b = byteOf '.' then (some (rest.takeWhile isAsciiDigit), rest.dropWhile isAsciiDigit)
      else (none, b :: rest)
  | [] => (none, [])

/-- A sign, if one stands here. -/
def scanSign : List UInt8 → Option UInt8 × List UInt8
  | b :: rest => if isSign b then (some b, rest) else (none, b :: rest)
  | [] => (none, [])

/-- The exponent, if a marker stands here. -/
def scanExponent : List UInt8 → Option DecimalExponent × List UInt8
  | b :: rest =>
      if isExponentMarker b then
        (some ⟨b, (scanSign rest).1, (scanSign rest).2.takeWhile isAsciiDigit⟩,
          (scanSign rest).2.dropWhile isAsciiDigit)
      else (none, b :: rest)
  | [] => (none, [])

/-- As much as looks like a decimal number. -/
def scan (bs : List UInt8) : DecimalText × List UInt8 :=
  let fraction := scanFraction (bs.dropWhile isAsciiDigit)
  let exponent := scanExponent fraction.2
  (⟨bs.takeWhile isAsciiDigit, fraction.1, exponent.1⟩, exponent.2)

/-- Runs of digits, a marker and a sign stand where they may. -/
structure Formed (t : DecimalText) : Prop where
  whole : ∀ b ∈ t.whole, isAsciiDigit b
  fraction : ∀ b ∈ t.fractionDigits, isAsciiDigit b
  exponent : ∀ e ∈ t.exponent, isExponentMarker e.marker ∧ (∀ s ∈ e.sign, isSign s) ∧
    ∀ b ∈ e.digits, isAsciiDigit b

/-- Nothing stands here that would go on with a number. -/
def Ends (rest : List UInt8) : Prop :=
  ∀ b ∈ rest.head?, isAsciiDigit b = false ∧ b ≠ byteOf '.' ∧ isExponentMarker b = false ∧
    isSign b = false

theorem bytes_scanFraction (bs : List UInt8) :
    fractionBytes (scanFraction bs).1 ++ (scanFraction bs).2 = bs := by
  cases bs with
  | nil => rfl
  | cons b rest =>
      rw [scanFraction]
      split
      case isTrue h =>
        rw [h]
        exact congrArg (List.cons _) List.takeWhile_append_dropWhile
      case isFalse => rfl

theorem bytes_scanSign (bs : List UInt8) :
    (scanSign bs).1.toList ++ (scanSign bs).2 = bs := by
  cases bs with
  | nil => rfl
  | cons b rest => rw [scanSign]; split <;> rfl

theorem bytes_scanExponent (bs : List UInt8) :
    exponentBytes (scanExponent bs).1 ++ (scanExponent bs).2 = bs := by
  cases bs with
  | nil => rfl
  | cons b rest =>
      rw [scanExponent]
      split
      case isTrue =>
        change b :: ((_ ++ _) ++ _) = _
        rw [List.append_assoc, List.takeWhile_append_dropWhile, bytes_scanSign]
      case isFalse => rfl

theorem bytes_scan (bs : List UInt8) : (scan bs).1.bytes ++ (scan bs).2 = bs := by
  rw [scan, bytes, List.append_assoc, List.append_assoc, bytes_scanExponent, bytes_scanFraction,
    List.takeWhile_append_dropWhile]

theorem isAsciiDigit_of_mem_takeWhile {bs : List UInt8} :
    ∀ b ∈ bs.takeWhile isAsciiDigit, isAsciiDigit b = true :=
  fun _ hb => List.mem_takeWhile_imp hb

theorem isSign_of_scanSign {bs : List UInt8} : ∀ s ∈ (scanSign bs).1, isSign s = true := by
  cases bs with
  | nil => exact fun s hs => nomatch hs
  | cons b rest =>
      rw [scanSign]
      split
      case isTrue signed =>
        rintro s ⟨⟩
        exact signed
      case isFalse => exact fun s hs => nomatch hs

theorem formed_scan (bs : List UInt8) : Formed (scan bs).1 := by
  constructor
  case whole => exact isAsciiDigit_of_mem_takeWhile
  case fraction =>
    change ∀ b ∈ (scanFraction (bs.dropWhile isAsciiDigit)).1.getD [], isAsciiDigit b = true
    cases bs.dropWhile isAsciiDigit with
    | nil => exact List.forall_mem_nil _
    | cons b rest =>
        rw [scanFraction]
        split
        · exact isAsciiDigit_of_mem_takeWhile
        · exact List.forall_mem_nil _
  case exponent =>
    change ∀ e ∈ (scanExponent (scanFraction (bs.dropWhile isAsciiDigit)).2).1, _
    cases (scanFraction (bs.dropWhile isAsciiDigit)).2 with
    | nil => exact fun e he => nomatch he
    | cons b rest =>
        rw [scanExponent]
        split
        case isTrue marked =>
          rintro e ⟨⟩
          refine ⟨marked, ?_, isAsciiDigit_of_mem_takeWhile⟩
          exact isSign_of_scanSign
        case isFalse => exact fun e he => nomatch he

theorem takeWhile_digits {ds rest : List UInt8} (digits : ∀ b ∈ ds, isAsciiDigit b = true)
    (ends : ∀ b ∈ rest.head?, isAsciiDigit b = false) :
    (ds ++ rest).takeWhile isAsciiDigit = ds ∧ (ds ++ rest).dropWhile isAsciiDigit = rest := by
  rw [List.takeWhile_append_of_pos digits, List.dropWhile_append_of_pos digits]
  cases rest with
  | nil => exact ⟨List.append_nil _, rfl⟩
  | cons b rest =>
      have hb : ¬ isAsciiDigit b = true := by rw [ends b rfl]; exact Bool.false_ne_true
      rw [List.takeWhile_cons_of_neg hb, List.dropWhile_cons_of_neg hb]
      exact ⟨List.append_nil _, rfl⟩

theorem scanSign_bytes {sign : Option UInt8} (signed : ∀ s ∈ sign, isSign s = true)
    {ds rest : List UInt8} (digits : ∀ b ∈ ds, isAsciiDigit b = true)
    (ends : ∀ b ∈ rest.head?, isSign b = false) :
    scanSign (sign.toList ++ (ds ++ rest)) = (sign, ds ++ rest) := by
  cases sign with
  | some s =>
      change scanSign (s :: (ds ++ rest)) = _
      rw [scanSign, if_pos (signed s rfl)]
  | none =>
      have first : ∀ b ∈ (ds ++ rest).head?, isSign b = false := by
        cases ds with
        | nil => exact ends
        | cons d ds =>
            rintro b ⟨⟩
            have hd := digits d List.mem_cons_self
            apply Bool.eq_false_iff.mpr
            intro sign
            rcases Bool.or_eq_true_iff.mp sign with h | h <;>
              rw [eq_of_beq h] at hd <;> exact absurd hd (by decide)
      change scanSign (ds ++ rest) = _
      cases after : ds ++ rest with
      | nil => rfl
      | cons b more =>
          rw [after] at first
          rw [scanSign, if_neg (by rw [first b rfl]; exact Bool.false_ne_true)]

theorem scanExponent_bytes {e : Option DecimalExponent}
    (h : ∀ x ∈ e, isExponentMarker x.marker ∧ (∀ s ∈ x.sign, isSign s) ∧
      ∀ b ∈ x.digits, isAsciiDigit b)
    {rest : List UInt8} (ends : Ends rest) :
    scanExponent (exponentBytes e ++ rest) = (e, rest) := by
  cases e with
  | none =>
      change scanExponent rest = _
      cases rest with
      | nil => rfl
      | cons b rest =>
          have hb := (ends b rfl).2.2.1
          rw [scanExponent, if_neg (by rw [hb]; exact Bool.false_ne_true)]
  | some x =>
      obtain ⟨marked, signed, digits⟩ := h x rfl
      have run := takeWhile_digits digits fun b hb => (ends b hb).1
      have sign := scanSign_bytes signed digits fun b hb => (ends b hb).2.2.2
      change scanExponent (x.marker :: ((x.sign.toList ++ x.digits) ++ rest)) = _
      rw [scanExponent, if_pos marked, List.append_assoc, sign]
      rw [run.1, run.2]

theorem ends_exponentBytes {e : Option DecimalExponent}
    (h : ∀ x ∈ e, isExponentMarker x.marker) {rest : List UInt8} (ends : Ends rest) :
    ∀ b ∈ (exponentBytes e ++ rest).head?, isAsciiDigit b = false ∧ b ≠ byteOf '.' := by
  cases e with
  | none => exact fun b hb => ⟨(ends b hb).1, (ends b hb).2.1⟩
  | some x =>
      intro b hb
      rw [← Option.some.inj hb]
      rcases Bool.or_eq_true_iff.mp (h x rfl) with marker | marker <;>
        rw [eq_of_beq marker] <;> decide

/-- A number is scanned to its end and no further. -/
theorem scan_bytes {t : DecimalText} (h : Formed t) {rest : List UInt8} (ends : Ends rest) :
    scan (t.bytes ++ rest) = (t, rest) := by
  rcases t with ⟨whole, fraction, exponent⟩
  have tail := ends_exponentBytes (fun x hx => (h.exponent x hx).1) ends
  have middle : scanFraction (fractionBytes fraction ++ (exponentBytes exponent ++ rest)) =
      (fraction, exponentBytes exponent ++ rest) := by
    cases fraction with
    | none =>
        change scanFraction (exponentBytes exponent ++ rest) = _
        cases after : exponentBytes exponent ++ rest with
        | nil => rfl
        | cons b more =>
            rw [after] at tail
            rw [scanFraction, if_neg (tail b rfl).2]
    | some ds =>
        have run := takeWhile_digits h.fraction fun b hb => (tail b hb).1
        change scanFraction (byteOf '.' :: (ds ++ _)) = _
        rw [scanFraction, if_pos rfl]
        exact congrArg₂ _ (congrArg some run.1) run.2
  have first : ∀ b ∈ (fractionBytes fraction ++ (exponentBytes exponent ++ rest)).head?,
      isAsciiDigit b = false := by
    cases fraction with
    | none => exact fun b hb => (tail b hb).1
    | some ds =>
        intro b hb
        rw [← Option.some.inj hb]
        decide
  have run := takeWhile_digits h.whole first
  rw [scan, bytes, List.append_assoc, List.append_assoc, run.1, run.2, middle,
    scanExponent_bytes h.exponent ends]

/-- There are digits, also in the exponent if there is one. -/
def Complete (t : DecimalText) : Prop :=
  t.whole ++ t.fractionDigits ≠ [] ∧ ∀ e ∈ t.exponent, e.digits ≠ []

instance (t : DecimalText) : Decidable t.Complete := inferInstanceAs (Decidable (_ ∧ _))

theorem head_bytes {t : DecimalText} (h : Formed t) {b : UInt8} (hb : b ∈ t.bytes.head?) :
    isAsciiDigit b ∨ b = byteOf '.' ∨ isExponentMarker b := by
  rcases t with ⟨_ | ⟨d, ds⟩, _ | ds, _ | e⟩
  case nil.none.none => exact nomatch hb
  case nil.none.some => exact .inr (.inr (Option.some.inj hb ▸ (h.exponent e rfl).1))
  case nil.some.none => exact .inr (.inl (Option.some.inj hb).symm)
  case nil.some.some => exact .inr (.inl (Option.some.inj hb).symm)
  all_goals exact .inl (Option.some.inj hb ▸ h.whole d List.mem_cons_self)

end DecimalText

/-- A minus sign, or none. -/
def signBytes (neg : Bool) : List UInt8 := if neg then [byteOf '-'] else []

/-- `from_str` of floats: a sign, then a decimal number or the name of a value that is none. -/
def Binary.fromStr (F : FloatFormat) (bs : List UInt8) : Option (Binary F) :=
  let neg : Bool := bs.head? = some (byteOf '-')
  let body := if bs.head?.any DecimalText.isSign then bs.tail else bs
  let scanned := DecimalText.scan body
  if scanned.2 = [] ∧ scanned.1.Complete then some (scanned.1.value F neg)
  else
    let name := body.map fun b => (byteAsChar b).toLower
    if name = "inf".toList ∨ name = "infinity".toList then some (.inf neg)
    else if name = "nan".toList then some .nan
    else none

/-- No name and no sign starts with a byte that a number starts with. -/
theorem first_of_digit {b : UInt8} (h : isAsciiDigit b) : DecimalText.isSign b = false ∧
    (byteAsChar b).toLower ≠ 'i' ∧ (byteAsChar b).toLower ≠ 'n' := by
  have each : ∀ n < 58, 48 ≤ n → DecimalText.isSign (UInt8.ofNat n) = false ∧
      (byteAsChar (UInt8.ofNat n)).toLower ≠ 'i' ∧
      (byteAsChar (UInt8.ofNat n)).toLower ≠ 'n' := by decide
  obtain ⟨low, high⟩ := Bool.and_eq_true_iff.mp h
  have this := each b.toNat (Nat.lt_succ_of_le (of_decide_eq_true high)) (of_decide_eq_true low)
  rwa [UInt8.ofNat_toNat] at this

theorem Binary.fromStr_bytes {F : FloatFormat} {t : DecimalText} (h : t.Formed) (neg : Bool) :
    Binary.fromStr F (signBytes neg ++ t.bytes) =
      if t.Complete then some (t.value F neg) else none := by
  have first : ∀ b ∈ t.bytes.head?, DecimalText.isSign b = false ∧
      (byteAsChar b).toLower ≠ 'i' ∧ (byteAsChar b).toLower ≠ 'n' := by
    intro b hb
    rcases t.head_bytes h hb with digit | rfl | marker
    · exact first_of_digit digit
    · decide
    · rcases Bool.or_eq_true_iff.mp marker with h | h <;> rw [eq_of_beq h] <;> decide
  have whole : DecimalText.scan t.bytes = (t, []) := by
    have scanned : DecimalText.scan (t.bytes ++ []) = (t, []) :=
      DecimalText.scan_bytes h fun b hb => nomatch hb
    rwa [List.append_nil] at scanned
  have named : ∀ c cs, c = 'i' ∨ c = 'n' →
      t.bytes.map (fun b => (byteAsChar b).toLower) ≠ c :: cs := by
    intro c cs hc same
    cases start : t.bytes with
    | nil => rw [start] at same; exact nomatch same
    | cons b bs =>
        rw [start] at same
        have hb := first b (by rw [start]; rfl)
        rcases hc with rfl | rfl
        · exact hb.2.1 (List.cons.inj same).1
        · exact hb.2.2 (List.cons.inj same).1
  have body : (if (signBytes neg ++ t.bytes).head?.any DecimalText.isSign then
      (signBytes neg ++ t.bytes).tail else signBytes neg ++ t.bytes) = t.bytes := by
    cases neg with
    | true => rfl
    | false =>
        change (if t.bytes.head?.any DecimalText.isSign then t.bytes.tail else t.bytes) = _
        apply if_neg
        rw [Option.any_eq_true]
        rintro ⟨b, hb, signed⟩
        rw [(first b hb).1] at signed
        exact Bool.false_ne_true signed
  have minus : decide ((signBytes neg ++ t.bytes).head? = some (byteOf '-')) = neg := by
    cases neg with
    | true => rfl
    | false =>
        apply decide_eq_false
        intro hb
        exact absurd (first _ hb).1 (by decide)
  rw [fromStr, body, whole, minus]
  by_cases complete : t.Complete
  · rw [if_pos complete]
    exact if_pos ⟨rfl, complete⟩
  · rw [if_neg complete]
    refine (if_neg fun both => complete both.2).trans ?_
    refine (if_neg ?_).trans (if_neg (named _ _ (.inr rfl)))
    rintro (inf | inf)
    · exact named _ _ (.inl rfl) inf
    · exact named _ _ (.inl rfl) inf

end CScript.Lib
