import CScript.Lib.Utf8

/-! Lines in a stream of bytes. A line feed ends a line and is no part of another character. -/
namespace CScript.Lib

/-- The bytes up to the first line feed, with it, and the rest. -/
def takeLine : List UInt8 → List UInt8 × List UInt8
  | [] => ([], [])
  | b :: rest =>
      if b = 10 then ([b], rest) else (b :: (takeLine rest).1, (takeLine rest).2)

theorem takeLine_append {line : List UInt8} (feed : 10 ∉ line) (rest : List UInt8) :
    takeLine (line ++ 10 :: rest) = (line ++ [10], rest) := by
  induction line with
  | nil => rfl
  | cons b line ih =>
      have other : b ≠ 10 := fun same => feed (same ▸ List.mem_cons_self)
      rw [List.cons_append, takeLine, if_neg other,
        ih fun mem => feed (List.mem_cons_of_mem b mem)]
      rfl

theorem length_takeLine (input : List UInt8) :
    (takeLine input).1.length + (takeLine input).2.length = input.length := by
  induction input with
  | nil => rfl
  | cons b rest ih =>
      unfold takeLine
      split
      · exact Nat.add_comm 1 _
      · dsimp only
        rw [List.length_cons, List.length_cons, ← ih]
        omega

theorem takeLine_ne_nil {input : List UInt8} (h : input ≠ []) : (takeLine input).1 ≠ [] := by
  cases input with
  | nil => exact absurd rfl h
  | cons b rest =>
      unfold takeLine
      split <;> exact List.cons_ne_nil _ _

theorem feed_not_mem_asBytes {cs : List Char} (feed : '\n' ∉ cs) : 10 ∉ asBytes cs := by
  intro mem
  obtain ⟨c, inside, byte⟩ := List.mem_flatMap.mp mem
  have other : c ≠ '\n' := fun same => feed (same ▸ inside)
  by_cases ascii : c.toNat < 128
  · rw [utf8EncodeChar_of_ascii ascii, List.mem_singleton] at byte
    exact other (asciiByte_inj ascii (by decide) byte.symm)
  · exact absurd (le_of_mem_utf8EncodeChar (Nat.le_of_not_lt ascii) byte) (by decide)

theorem takeLine_asBytes {cs : List Char} (feed : '\n' ∉ cs) (rest : List UInt8) :
    takeLine (asBytes (cs ++ ['\n']) ++ rest) = (asBytes (cs ++ ['\n']), rest) := by
  have last : asBytes (cs ++ ['\n']) = asBytes cs ++ [10] := asBytes_append cs ['\n']
  rw [last, List.append_assoc]
  exact takeLine_append (feed_not_mem_asBytes feed) rest

theorem textOf_asBytes (cs : List Char) : textOf (asBytes cs) = some (String.ofList cs) := by
  rw [textOf_eq_some, String.toList_ofList]

end CScript.Lib
