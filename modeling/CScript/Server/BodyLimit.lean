import CScript.Lib.Utf8
import Mathlib.Algebra.Group.Nat.Defs

/-!
# The limit on a request's body

`handle_request` reads at most one byte more than the limit, as text, and refuses the request
if that byte came. What the reading leaves in `body` is what every later step of the request sees.
-/
namespace CScript.Server
open CScript.Lib

/-- How the binary was built, as far as it decides what `+` does at the end of `u64`. -/
structure Build where
  overflowChecks : Bool

def u64Max : Nat := 2 ^ 64 - 1

/-- `max_body_bytes + 1`. -/
def Build.succU64 (b : Build) (n : Nat) : Option Nat :=
  if n = u64Max then if b.overflowChecks then none else some 0 else some (n + 1)

/-- `Read::read_to_string` into an empty text, its error discarded: what is not UTF-8 leaves the
text empty. -/
def readToString (bytes : List UInt8) : String := (textOf bytes).getD ""

/-- How the reading of a body ends. -/
inductive BodyRead where
  | tooLarge
  | malformed
  | dispatched (body : String)
  /-- The thread of the request unwinds and no response is sent. -/
  | panicked
  deriving DecidableEq

/-- `handle_request`, where it reads the body of a request. -/
def readBody (build : Build) (maxBodyBytes : UInt64) (sent : List UInt8) : BodyRead :=
  match build.succU64 maxBodyBytes.toNat with
  | none => .panicked
  | some bound =>
      let body := readToString (sent.take bound)
      if maxBodyBytes.toNat < (asBytes body.toList).length then .tooLarge else .dispatched body

/-- What the limit promises: too long a body is refused, any other is refused as malformed or
arrives as it was sent. -/
def LimitExact (maxBodyBytes : UInt64) (sent : List UInt8) (out : BodyRead) : Prop :=
  if maxBodyBytes.toNat < sent.length then out = .tooLarge
  else out = .malformed ∨ ∃ body, out = .dispatched body ∧ asBytes body.toList = sent

theorem asBytes_readToString (bytes : List UInt8) :
    asBytes (readToString bytes).toList = if (textOf bytes).isSome then bytes else [] := by
  unfold readToString
  cases h : textOf bytes with
  | none => rfl
  | some s => exact textOf_eq_some.mp h

theorem textOf_isSome {bytes : List UInt8} :
    (textOf bytes).isSome ↔ ∃ text : List Char, asBytes text = bytes := by
  rw [Option.isSome_iff_exists]
  constructor
  · rintro ⟨s, h⟩
    exact ⟨s.toList, textOf_eq_some.mp h⟩
  · rintro ⟨text, h⟩
    exact ⟨String.ofList text, textOf_eq_some.mpr (by rwa [String.toList_ofList])⟩

theorem succU64_of_ne {build : Build} {n : Nat} (h : n ≠ u64Max) :
    build.succU64 n = some (n + 1) := if_neg h

/-- Where the bound does not overflow, the bytes read decide all. -/
theorem readBody_of_ne {build : Build} {maxBodyBytes : UInt64} {sent : List UInt8}
    (h : maxBodyBytes.toNat ≠ u64Max) :
    readBody build maxBodyBytes sent =
      if (textOf (sent.take (maxBodyBytes.toNat + 1))).isSome ∧ maxBodyBytes.toNat < sent.length
      then .tooLarge
      else .dispatched (readToString (sent.take (maxBodyBytes.toNat + 1))) := by
  simp only [readBody, succU64_of_ne h, asBytes_readToString]
  apply if_congr _ rfl rfl
  by_cases valid : (textOf (sent.take (maxBodyBytes.toNat + 1))).isSome
  · rw [if_pos valid, List.length_take, and_iff_right valid]
    omega
  · rw [if_neg valid]
    exact iff_of_false (Nat.not_lt_zero _) fun both => valid both.1

/-- At the largest limit the bound wraps to zero or the addition panics. -/
theorem readBody_max {build : Build} {maxBodyBytes : UInt64} {sent : List UInt8}
    (h : maxBodyBytes.toNat = u64Max) :
    readBody build maxBodyBytes sent =
      if build.overflowChecks then .panicked else .dispatched "" := by
  unfold readBody Build.succU64
  rw [if_pos h]
  cases build.overflowChecks with
  | true => rfl
  | false =>
      have empty : readToString [] = "" := by
        have none_or : textOf [] = some "" := textOf_eq_some.mpr rfl
        rw [readToString, none_or]
        rfl
      simp only [Bool.false_eq_true, if_false, List.take_zero, empty]
      exact if_neg (Nat.not_lt_zero _)

/-- All or nothing: no request is dispatched with a part of its body, and one whose body is not
too long arrives whole or empty. -/
theorem body_of_readBody {build : Build} {maxBodyBytes : UInt64} {sent : List UInt8}
    {body : String} (h : readBody build maxBodyBytes sent = .dispatched body) :
    asBytes body.toList = sent ∨ asBytes body.toList = [] := by
  by_cases hmax : maxBodyBytes.toNat = u64Max
  · rw [readBody_max hmax] at h
    split at h
    · exact nomatch h
    · rw [← BodyRead.dispatched.inj h]
      exact Or.inr rfl
  · rw [readBody_of_ne hmax] at h
    split at h
    · exact nomatch h
    · next fits =>
      rw [← BodyRead.dispatched.inj h, asBytes_readToString]
      split
      · next valid =>
        left
        apply List.take_of_length_le
        exact Nat.le_succ_of_le (Nat.le_of_not_lt fun long => fits ⟨valid, long⟩)
      · exact Or.inr rfl

/-- The limit is exact just where the bytes read form a text: the body, or its first bytes up to
one more than the limit. At the largest limit nothing is read at all. -/
theorem limit_exact_iff (build : Build) (maxBodyBytes : UInt64) (sent : List UInt8) :
    LimitExact maxBodyBytes sent (readBody build maxBodyBytes sent) ↔
      if maxBodyBytes.toNat = u64Max then build.overflowChecks = false ∧ sent = []
      else ∃ text : List Char, asBytes text = sent.take (maxBodyBytes.toNat + 1) := by
  by_cases hmax : maxBodyBytes.toNat = u64Max
  · rw [if_pos hmax, readBody_max hmax, LimitExact]
    cases build.overflowChecks with
    | true => simp
    | false =>
        rw [if_neg Bool.false_ne_true, eq_self_iff_true, true_and]
        constructor
        · intro exact
          split at exact
          · exact nomatch exact
          · obtain h | ⟨body, h, whole⟩ := exact
            · exact nomatch h
            · rw [← whole, ← BodyRead.dispatched.inj h]
              rfl
        · rintro rfl
          exact Or.inr ⟨"", rfl, rfl⟩
  · rw [if_neg hmax, ← textOf_isSome, readBody_of_ne hmax, LimitExact]
    by_cases valid : (textOf (sent.take (maxBodyBytes.toNat + 1))).isSome
    · refine iff_of_true ?_ valid
      by_cases long : maxBodyBytes.toNat < sent.length
      · rw [if_pos long, if_pos ⟨valid, long⟩]
      · have fits : ¬((textOf (sent.take (maxBodyBytes.toNat + 1))).isSome ∧
            maxBodyBytes.toNat < sent.length) := fun both => long both.2
        rw [if_neg long, if_neg fits]
        refine Or.inr ⟨_, rfl, ?_⟩
        rw [asBytes_readToString, if_pos valid]
        exact List.take_of_length_le (Nat.le_succ_of_le (Nat.le_of_not_lt long))
    · refine iff_of_false ?_ valid
      have unread : ¬((textOf (sent.take (maxBodyBytes.toNat + 1))).isSome ∧
          maxBodyBytes.toNat < sent.length) := fun both => valid both.1
      rw [if_neg unread]
      split
      · exact nofun
      · rintro (h | ⟨body, h, whole⟩)
        · exact nomatch h
        · rw [← BodyRead.dispatched.inj h, asBytes_readToString, if_neg valid] at whole
          subst whole
          exact valid (textOf_isSome.mpr ⟨[], rfl⟩)

/-- Under a limit of one byte the cut falls inside `é`: the three bytes are not refused, and the
dispatch sees none of them. -/
theorem cutAccent_not_exact :
    readBody ⟨false⟩ 1 [0x61, 0xC3, 0xA9] = .dispatched "" ∧
      ¬ LimitExact 1 [0x61, 0xC3, 0xA9] (readBody ⟨false⟩ 1 [0x61, 0xC3, 0xA9]) := by
  have dispatched : readBody ⟨false⟩ 1 [0x61, 0xC3, 0xA9] = .dispatched "" := by decide +kernel
  refine ⟨dispatched, ?_⟩
  rw [dispatched, LimitExact, if_pos (by decide)]
  exact nofun

end CScript.Server
