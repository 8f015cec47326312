import CScript.Lib.Utf8
import CScript.Runtime.Calendar

/-!
# Timestamps as text

`parse_iso8601_millis` looks at the bytes of a string. A text that it accepts is ASCII in every
place, and it is the text of the instant it is read as.
-/

namespace CScript

open Lib

/-! ## The decoder on bytes -/

/-- `digit`: the value of the digit at a place. -/
def byteDigit (byte : UInt8) : Option Nat :=
  if 48 ≤ byte ∧ byte ≤ 57 then some (byte.toNat - 48) else none

/-- `num`: the digits from `start` on. -/
def byteNum (b : List UInt8) (start len : Nat) : Option Nat :=
  (List.range' start len).foldlM (fun acc i => do return acc * 10 + (← byteDigit (← b[i]?))) 0

/-- `parse_iso8601_millis`. -/
def parseIso8601Bytes (b : List UInt8) : Option I64 := do
  if b.length ≠ 24 then none
  else if b[4]? ≠ some 45 ∨ b[7]? ≠ some 45 ∨ b[10]? ≠ some 84 ∨ b[13]? ≠ some 58 ∨
      b[16]? ≠ some 58 ∨ b[19]? ≠ some 46 ∨ b[23]? ≠ some 90 then none
  else
    let y ← byteNum b 0 4
    let m ← byteNum b 5 2
    let d ← byteNum b 8 2
    let hour ← byteNum b 11 2
    let min ← byteNum b 14 2
    let sec ← byteNum b 17 2
    let ms ← byteNum b 20 3
    if m < 1 ∨ 12 < m ∨ d < 1 ∨ 31 < d ∨ 23 < hour ∨ 59 < min ∨ 59 < sec then none
    else
      let days := daysFromCivil y m d
      if civilFromDays days ≠ ((y : Int), (m : Int), (d : Int)) then none
      else SInt.ofInt? 64 (days * msPerDay + hour * msPerHour + min * msPerMin + sec * msPerSec + ms)

/-- On ASCII the bytes are read as the characters are. -/
theorem byteDigit_asciiByte {c : Char} (h : c.toNat < 128) :
    byteDigit (asciiByte c) = if c.isDigit = true then some (c.toNat - '0'.toNat) else none := by
  have hbyte := toNat_asciiByte h
  have hrange : 48 ≤ asciiByte c ∧ asciiByte c ≤ 57 ↔ c.isDigit = true := by
    rw [UInt8.le_iff_toNat_le, UInt8.le_iff_toNat_le, hbyte]
    exact Char.isDigit_iff_toNat.symm
  unfold byteDigit
  rw [hbyte]
  exact if_congr hrange rfl rfl

theorem digits_fold {cs : List Char} (h : ∀ c ∈ cs, c.toNat < 128) (acc : Nat) :
    (cs.map asciiByte).foldlM (fun acc byte => do return acc * 10 + (← byteDigit byte)) acc =
      if cs.all Char.isDigit = true then some (Nat.ofDigitChars 10 cs acc) else none := by
  induction cs generalizing acc with
  | nil => rfl
  | cons c cs ih =>
      obtain ⟨hc, hcs⟩ := List.forall_mem_cons.mp h
      rw [List.map_cons, List.foldlM_cons, byteDigit_asciiByte hc, List.all_cons]
      by_cases hdigit : c.isDigit = true
      · rw [if_pos hdigit, hdigit, Bool.true_and, Nat.ofDigitChars_cons, Nat.mul_comm 10 acc]
        exact ih hcs _
      · rw [if_neg hdigit, Bool.eq_false_of_not_eq_true hdigit]
        rfl

/-- The loop over places is one over a slice. -/
theorem byteNum_eq {b : List UInt8} {start len : Nat} (h : start + len ≤ b.length) :
    byteNum b start len =
      ((b.drop start).take len).foldlM (fun acc byte => do return acc * 10 + (← byteDigit byte)) 0 := by
  unfold byteNum
  generalize 0 = acc
  induction len generalizing start acc with
  | zero => rfl
  | succ len ih =>
      have hstart : start < b.length := by omega
      rw [List.range'_succ, List.foldlM_cons, List.drop_eq_getElem_cons hstart, List.take_succ_cons,
        List.foldlM_cons, List.getElem?_eq_getElem hstart]
      cases hdigit : byteDigit b[start] with
      | none =>
          simp only [Option.bind_eq_bind, Option.bind_some, hdigit, Option.bind_none]
      | some d =>
          simp only [Option.bind_eq_bind, Option.bind_some, hdigit]
          exact ih (by omega) _

theorem byteNum_ascii {cs : List Char} (h : ∀ c ∈ cs, c.toNat < 128) {start len : Nat}
    (hlen : start + len ≤ cs.length) (hpos : 0 < len) :
    byteNum (cs.map asciiByte) start len = parseDigits ((cs.drop start).take len) := by
  have hslice : ∀ c ∈ (cs.drop start).take len, c.toNat < 128 := fun c hc =>
    h c (List.mem_of_mem_drop (List.mem_of_mem_take hc))
  have hne : (cs.drop start).take len ≠ [] := by
    intro hnil
    have := congrArg List.length hnil
    rw [List.length_take, List.length_drop, List.length_nil] at this
    omega
  rw [byteNum_eq (by rwa [List.length_map]), ← List.map_drop, ← List.map_take, digits_fold hslice,
    parseDigits]
  exact if_congr (and_iff_right hne).symm rfl rfl

theorem asciiByte_at {cs : List Char} (h : ∀ c ∈ cs, c.toNat < 128) (i : Nat) {c : Char}
    (hc : c.toNat < 128) : (cs.map asciiByte)[i]? = some (asciiByte c) ↔ cs[i]? = some c := by
  rw [List.getElem?_map]
  cases hcs : cs[i]? with
  | none => exact iff_of_false (fun h => nomatch h) fun h => nomatch h
  | some d =>
      rw [Option.map_some, Option.some.injEq, Option.some.injEq]
      exact ⟨asciiByte_inj (h d (List.mem_of_getElem? hcs)) hc, congrArg asciiByte⟩

/-- On an ASCII text both decoders are one. -/
theorem parseIso8601Bytes_ascii {cs : List Char} (h : ∀ c ∈ cs, c.toNat < 128) :
    parseIso8601Bytes (cs.map asciiByte) = parseIso8601Millis cs := by
  unfold parseIso8601Bytes parseIso8601Millis
  rw [List.length_map]
  by_cases hlen : cs.length = 24
  case neg => rw [if_pos hlen, if_pos hlen]
  have hnum : ∀ start len, start + len ≤ 24 → 0 < len →
      byteNum (cs.map asciiByte) start len = parseDigits ((cs.drop start).take len) :=
    fun start len hle => byteNum_ascii h (by rw [hlen]; exact hle)
  rw [if_neg (not_not_intro hlen), if_neg (not_not_intro hlen)]
  refine if_congr ?_ rfl ?_
  · exact or_congr (not_congr (asciiByte_at h 4 (c := '-') (by decide)))
      (or_congr (not_congr (asciiByte_at h 7 (c := '-') (by decide)))
        (or_congr (not_congr (asciiByte_at h 10 (c := 'T') (by decide)))
          (or_congr (not_congr (asciiByte_at h 13 (c := ':') (by decide)))
            (or_congr (not_congr (asciiByte_at h 16 (c := ':') (by decide)))
              (or_congr (not_congr (asciiByte_at h 19 (c := '.') (by decide)))
                (not_congr (asciiByte_at h 23 (c := 'Z') (by decide))))))))
  · simp only [hnum 0 4 (by decide) (by decide), hnum 5 2 (by decide) (by decide),
      hnum 8 2 (by decide) (by decide), hnum 11 2 (by decide) (by decide),
      hnum 14 2 (by decide) (by decide), hnum 17 2 (by decide) (by decide),
      hnum 20 3 (by decide) (by decide)]

theorem byteDigit_lt {byte : UInt8} {d : Nat} (h : byteDigit byte = some d) : byte.toNat < 128 := by
  unfold byteDigit at h
  split at h
  · next hrange =>
      have := UInt8.le_iff_toNat_le.mp hrange.2
      have hnine : (57 : UInt8).toNat = 57 := rfl
      omega
  · cases h

theorem ascii_of_byteNum {b : List UInt8} {start len n : Nat} (h : byteNum b start len = some n) :
    ∀ i, start ≤ i → i < start + len → ∀ byte, b[i]? = some byte → byte.toNat < 128 := by
  unfold byteNum at h
  generalize 0 = acc at h
  induction len generalizing start acc with
  | zero => exact fun i hlow hhigh => absurd hhigh (by omega)
  | succ len ih =>
      rw [List.range'_succ, List.foldlM_cons] at h
      obtain ⟨next, hnext, hrest⟩ := Option.bind_eq_some_iff.mp h
      obtain ⟨byte, hbyte, hnext⟩ := Option.bind_eq_some_iff.mp hnext
      obtain ⟨d, hd, -⟩ := Option.bind_eq_some_iff.mp hnext
      intro i hlow hhigh byte' hbyte'
      rcases Nat.eq_or_lt_of_le hlow with rfl | hlt
      · rw [hbyte] at hbyte'
        cases hbyte'
        exact byteDigit_lt hd
      · exact ih next hrest i hlt (by omega) byte' hbyte'

/-- A text that is accepted is ASCII in every place. -/
theorem ascii_of_parseIso8601Bytes {b : List UInt8} {ms : I64} (h : parseIso8601Bytes b = some ms) :
    ∀ byte ∈ b, byte.toNat < 128 := by
  unfold parseIso8601Bytes at h
  split at h
  · cases h
  next hlen =>
  rw [not_not] at hlen
  split at h
  · cases h
  next hseps =>
  simp only [not_or, not_not] at hseps
  obtain ⟨h4, h7, h10, h13, h16, h19, h23⟩ := hseps
  obtain ⟨y, hy, h⟩ := Option.bind_eq_some_iff.mp h
  obtain ⟨m, hm, h⟩ := Option.bind_eq_some_iff.mp h
  obtain ⟨d, hd, h⟩ := Option.bind_eq_some_iff.mp h
  obtain ⟨hour, hhour, h⟩ := Option.bind_eq_some_iff.mp h
  obtain ⟨min, hmin, h⟩ := Option.bind_eq_some_iff.mp h
  obtain ⟨sec, hsec, h⟩ := Option.bind_eq_some_iff.mp h
  obtain ⟨milli, hmilli, -⟩ := Option.bind_eq_some_iff.mp h
  have sep {i : Nat} {sep byte : UInt8} (hsep : b[i]? = some sep) (hsmall : sep.toNat < 128)
      (hbyte : b[i]? = some byte) : byte.toNat < 128 := by
    rw [hsep] at hbyte
    cases hbyte
    exact hsmall
  intro byte hbyte
  obtain ⟨i, hi, hget⟩ := List.mem_iff_getElem.mp hbyte
  have hget : b[i]? = some byte := by rw [List.getElem?_eq_getElem hi, hget]
  -- a place holds a separator or a digit
  have place : i < 4 ∨ i = 4 ∨ (5 ≤ i ∧ i < 7) ∨ i = 7 ∨ (8 ≤ i ∧ i < 10) ∨ i = 10 ∨
      (11 ≤ i ∧ i < 13) ∨ i = 13 ∨ (14 ≤ i ∧ i < 16) ∨ i = 16 ∨ (17 ≤ i ∧ i < 19) ∨ i = 19 ∨
      (20 ≤ i ∧ i < 23) ∨ i = 23 := by omega
  rcases place with h0 | rfl | ⟨hlow, hhigh⟩ | rfl | ⟨hlow, hhigh⟩ | rfl | ⟨hlow, hhigh⟩ | rfl |
    ⟨hlow, hhigh⟩ | rfl | ⟨hlow, hhigh⟩ | rfl | ⟨hlow, hhigh⟩ | rfl
  · exact ascii_of_byteNum hy i (Nat.zero_le i) h0 byte hget
  · exact sep h4 (by decide) hget
  · exact ascii_of_byteNum hm i hlow hhigh byte hget
  · exact sep h7 (by decide) hget
  · exact ascii_of_byteNum hd i hlow hhigh byte hget
  · exact sep h10 (by decide) hget
  · exact ascii_of_byteNum hhour i hlow hhigh byte hget
  · exact sep h13 (by decide) hget
  · exact ascii_of_byteNum hmin i hlow hhigh byte hget
  · exact sep h16 (by decide) hget
  · exact ascii_of_byteNum hsec i hlow hhigh byte hget
  · exact sep h19 (by decide) hget
  · exact ascii_of_byteNum hmilli i hlow hhigh byte hget
  · exact sep h23 (by decide) hget

/-! ## The text of what is read -/

theorem padInt_of_parseDigits {cs : List Char} {n : Nat} (h : parseDigits cs = some n) :
    padInt cs.length n = cs := by
  rw [padInt, if_neg (by omega), Int.natAbs_natCast]
  exact padDigits_of_parseDigits h

/-- The text that is made of the pieces of a timestamp. -/
theorem formatIso8601Millis_eq {ms : I64} {ys mos ds hs mis ss fs : List Char}
    {y m d hour min sec milli : Nat}
    (hy : parseDigits ys = some y ∧ ys.length = 4) (hm : parseDigits mos = some m ∧ mos.length = 2)
    (hd : parseDigits ds = some d ∧ ds.length = 2) (hhour : parseDigits hs = some hour ∧ hs.length = 2)
    (hmin : parseDigits mis = some min ∧ mis.length = 2)
    (hsec : parseDigits ss = some sec ∧ ss.length = 2)
    (hmilli : parseDigits fs = some milli ∧ fs.length = 3)
    (hbounds : ¬ (m < 1 ∨ 12 < m ∨ d < 1 ∨ 31 < d ∨ 23 < hour ∨ 59 < min ∨ 59 < sec))
    (hreal : civilFromDays (daysFromCivil y m d) = ((y : Int), (m : Int), (d : Int)))
    (hms : ms.toInt = daysFromCivil y m d * msPerDay + hour * msPerHour + min * msPerMin +
      sec * msPerSec + milli) :
    formatIso8601Millis ms = ys ++ '-' :: mos ++ '-' :: ds ++ 'T' :: hs ++ ':' :: mis ++ ':' :: ss ++
      '.' :: fs ++ ['Z'] := by
  have hthousand := parseDigits_lt hmilli.1
  rw [hmilli.2] at hthousand
  unfold formatIso8601Millis
  unfold msPerDay msPerHour msPerMin msPerSec at *
  generalize daysFromCivil y m d = days at *
  have hdays : ms.toInt / 86400000 = days := by omega
  have hrest : ms.toInt % 86400000 = hour * 3600000 + min * 60000 + sec * 1000 + milli := by omega
  have hours : ((hour : Int) * 3600000 + min * 60000 + sec * 1000 + milli) / 3600000 = hour := by omega
  have minutes : ((hour : Int) * 3600000 + min * 60000 + sec * 1000 + milli) % 3600000 / 60000 = min := by
    omega
  have seconds : ((hour : Int) * 3600000 + min * 60000 + sec * 1000 + milli) % 60000 / 1000 = sec := by
    omega
  have millis : ((hour : Int) * 3600000 + min * 60000 + sec * 1000 + milli) % 1000 = milli := by omega
  simp only [hdays, hrest, hreal, hours, minutes, seconds, millis]
  rw [← hy.2, ← hmilli.2, padInt_of_parseDigits hy.1, padInt_of_parseDigits hmilli.1, ← hm.2,
    padInt_of_parseDigits hm.1, hm.2, ← hd.2, padInt_of_parseDigits hd.1, hd.2, ← hhour.2,
    padInt_of_parseDigits hhour.1, hhour.2, ← hmin.2, padInt_of_parseDigits hmin.1, hmin.2, ← hsec.2,
    padInt_of_parseDigits hsec.1]

/-- A text that is read is the text of the instant that it is read as. -/
theorem format_of_parseIso8601Millis {cs : List Char} {ms : I64}
    (h : parseIso8601Millis cs = some ms) : formatIso8601Millis ms = cs := by
  unfold parseIso8601Millis at h
  simp only at h
  split at h
  · cases h
  next hlen =>
  rw [not_not] at hlen
  split at h
  · cases h
  next hseps =>
  simp only [not_or, not_not] at hseps
  obtain ⟨h4, h7, h10, h13, h16, h19, h23⟩ := hseps
  obtain ⟨y, hy, h⟩ := Option.bind_eq_some_iff.mp h
  obtain ⟨m, hm, h⟩ := Option.bind_eq_some_iff.mp h
  obtain ⟨d, hd, h⟩ := Option.bind_eq_some_iff.mp h
  obtain ⟨hour, hhour, h⟩ := Option.bind_eq_some_iff.mp h
  obtain ⟨min, hmin, h⟩ := Option.bind_eq_some_iff.mp h
  obtain ⟨sec, hsec, h⟩ := Option.bind_eq_some_iff.mp h
  obtain ⟨milli, hmilli, h⟩ := Option.bind_eq_some_iff.mp h
  split at h
  · cases h
  next hbounds =>
  split at h
  · cases h
  next hreal =>
  rw [not_not] at hreal
  have slice (start len : Nat) : cs.drop start = (cs.drop start).take len ++ cs.drop (start + len) := by
    rw [← List.drop_drop, List.take_append_drop]
  have sep {i : Nat} {c : Char} (hc : cs[i]? = some c) : cs.drop i = c :: cs.drop (i + 1) := by
    obtain ⟨hi, hget⟩ := List.getElem?_eq_some_iff.mp hc
    rw [List.drop_eq_getElem_cons hi, hget]
  have length (start len : Nat) (hle : start + len ≤ 24) : ((cs.drop start).take len).length = len := by
    rw [List.length_take, List.length_drop, hlen]
    omega
  refine (formatIso8601Millis_eq ⟨hy, length 0 4 (by decide)⟩ ⟨hm, length 5 2 (by decide)⟩
    ⟨hd, length 8 2 (by decide)⟩ ⟨hhour, length 11 2 (by decide)⟩ ⟨hmin, length 14 2 (by decide)⟩
    ⟨hsec, length 17 2 (by decide)⟩ ⟨hmilli, length 20 3 (by decide)⟩ hbounds hreal
    (SInt.toInt_of_ofInt? h)).trans ?_
  have hend : cs.drop 24 = [] := List.drop_eq_nil_of_le (Nat.le_of_eq hlen)
  have s23 : ['Z'] = cs.drop 23 := by rw [sep h23, hend]
  have p20 : (cs.drop 20).take 3 ++ cs.drop 23 = cs.drop 20 := (slice 20 3).symm
  have p17 : (cs.drop 17).take 2 ++ cs.drop 19 = cs.drop 17 := (slice 17 2).symm
  have p14 : (cs.drop 14).take 2 ++ cs.drop 16 = cs.drop 14 := (slice 14 2).symm
  have p11 : (cs.drop 11).take 2 ++ cs.drop 13 = cs.drop 11 := (slice 11 2).symm
  have p8 : (cs.drop 8).take 2 ++ cs.drop 10 = cs.drop 8 := (slice 8 2).symm
  have p5 : (cs.drop 5).take 2 ++ cs.drop 7 = cs.drop 5 := (slice 5 2).symm
  have p0 : (cs.drop 0).take 4 ++ cs.drop 4 = cs := (slice 0 4).symm
  simp only [List.append_assoc, List.cons_append]
  rw [s23, p20, ← sep h19, p17, ← sep h16, p14, ← sep h13, p11, ← sep h10, p8, ← sep h7, p5,
    ← sep h4, p0]

/-- The decoder of timestamps on a string. -/
def parseIso8601String (s : String) : Option I64 := parseIso8601Bytes (asBytes s.toList)

theorem ascii_of_mem_padInt {width : Nat} {n : Int} {c : Char} (h : c ∈ padInt width n) :
    c.toNat < 128 := by
  have digits {k m : Nat} (hmem : c ∈ padDigits k m) : c.toNat < 128 := by
    have := digit_bounds (isDigit_of_mem_padDigits hmem)
    omega
  unfold padInt at h
  split at h
  · rcases List.mem_cons.mp h with rfl | hmem
    · decide
    · exact digits hmem
  · exact digits h

theorem format_ascii {ms : I64} : ∀ c ∈ formatIso8601Millis ms, c.toNat < 128 := by
  intro c hc
  unfold formatIso8601Millis at hc
  simp only [List.mem_append, List.mem_cons, List.not_mem_nil, or_false] at hc
  casesm* _ ∨ _ <;> first | exact ascii_of_mem_padInt ‹_› | (subst_vars; decide)

/-- A string is read only as an instant whose text it is. -/
theorem format_of_parseIso8601String {s : String} {ms : I64} (h : parseIso8601String s = some ms) :
    String.ofList (formatIso8601Millis ms) = s := by
  have hascii := ascii_of_asBytes (ascii_of_parseIso8601Bytes h)
  rw [parseIso8601String, asBytes_of_ascii hascii, parseIso8601Bytes_ascii hascii] at h
  rw [format_of_parseIso8601Millis h, String.ofList_toList]

/-- Instants of four-digit years are read back from their text, and a string is read only as an
instant whose text it is. -/
theorem timestamp_text_faithful :
    (∀ ms : I64, 0 ≤ timestampYear ms → timestampYear ms ≤ 9999 →
      parseIso8601String (String.ofList (formatIso8601Millis ms)) = some ms) ∧
    ∀ (s : String) (ms : I64), parseIso8601String s = some ms →
      String.ofList (formatIso8601Millis ms) = s := by
  refine ⟨fun ms h0 h1 => ?_, fun s ms h => format_of_parseIso8601String h⟩
  rw [parseIso8601String, String.toList_ofList, asBytes_of_ascii format_ascii,
    parseIso8601Bytes_ascii format_ascii]
  exact parseIso8601Millis_format h0 h1

/-- The epoch. -/
theorem epoch_read_back :
    parseIso8601String (String.ofList (formatIso8601Millis (.ofInt 0 (by decide)))) =
      some (.ofInt 0 (by decide)) :=
  timestamp_text_faithful.1 _ (by decide) (by decide)

end CScript
