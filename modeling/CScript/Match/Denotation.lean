import CScript.Match.Check

/-!
# The arm that denotes the value

What a pattern denotes by its meaning, and where the interpreter reads it otherwise: an
integer literal never matches an `Int64`, and a variant pattern matches by the name of the
variant alone.
-/

namespace CScript

open Lib

/-! ## The meaning of patterns -/

/-- A literal denotes the value equal to it; there is one literal syntax for both integer
types. -/
def literalDenotes : LiteralPattern → Value → Bool
  | .int a, .int b => a = b
  | .int a, .int64 b => a = b
  | .str a, .str b => a == b
  | .bool a, .bool b => a == b
  | .null, .null => true
  | _, _ => false

section

variable (checker : Checker)

mutual

/-- Does the pattern denote the value? Enum and variant agree and every field pattern
denotes its field; one alternative of an or-pattern does; a type pattern denotes the values
of its type. -/
def denotes : Pattern → Value → Bool
  | .bind _, _ => true
  | .literal lit, v => literalDenotes lit v
  | .variant enumName variantName fields, v =>
      match v with
      | .variant e n entries =>
          e == enumName && n == variantName &&
            match fields with
            | none => true
            | some fps => fieldsDenote fps entries
      | _ => false
  | .or alternatives, v => someDenotes alternatives v
  | .type _ texpr, v =>
      match checker.resolveType texpr with
      | .ok ty => valueMatchesType checker v ty
      | .error _ => false

def fieldsDenote : List (String × Pattern) → List (String × Value) → Bool
  | [], _ => true
  | (name, p) :: fps, entries =>
      (match entryNamed entries name with
        | some fv => denotes p fv
        | none => false) && fieldsDenote fps entries

def someDenotes : List Pattern → Value → Bool
  | [], _ => false
  | p :: ps, v => denotes p v || someDenotes ps v

end

mutual

/-- What a pattern that denotes the value binds; the alternatives of an or-pattern bind
nothing. -/
def captures : Pattern → Value → Bindings
  | .bind name, v => [(name, v)]
  | .literal _, _ => []
  | .variant _ _ fields, v =>
      match fields with
      | none => []
      | some fps =>
          match v with
          | .variant _ _ entries => fieldCaptures fps entries
          | _ => []
  | .or _, _ => []
  | .type name _, v => [(name, v)]

def fieldCaptures : List (String × Pattern) → List (String × Value) → Bindings
  | [], _ => []
  | (name, p) :: fps, entries =>
      (match entryNamed entries name with
        | some fv => captures p fv
        | none => []) ++ fieldCaptures fps entries

end

/-- The matcher that goes by the meaning. -/
def denoted (p : Pattern) (v : Value) : Option Bindings :=
  if denotes checker p v then some (captures p v) else none

/-! ## Where the interpreter reads otherwise -/

/-- The integer literal against an `Int64`. -/
def literalLost : LiteralPattern → Value → Bool
  | .int a, .int64 b => a = b
  | _, _ => false

mutual

/-- The pattern denotes the value and the interpreter does not see it: below a variant that
agrees there is an integer literal against an equal `Int64`. -/
def lost : Pattern → Value → Bool
  | .bind _, _ => false
  | .literal lit, v => literalLost lit v
  | .variant enumName variantName fields, v =>
      match v with
      | .variant e n entries =>
          e == enumName && n == variantName &&
            match fields with
            | none => false
            | some fps => fieldsDenote checker fps entries && !fieldsRead fps entries
      | _ => false
  | .or alternatives, v => someDenotes checker alternatives v && !someRead alternatives v
  | .type _ _, _ => false

/-- The interpreter sees the pattern in a value that it does not denote: a variant of the
same name of another enum, at the top or below. -/
def stray : Pattern → Value → Bool
  | .bind _, _ => false
  | .literal _, _ => false
  | .variant enumName variantName fields, v =>
      match v with
      | .variant e n entries =>
          n == variantName &&
            match fields with
            | none => e != enumName
            | some fps =>
                fieldsRead fps entries && (e != enumName || !fieldsDenote checker fps entries)
      | _ => false
  | .or alternatives, v => !someDenotes checker alternatives v && someRead alternatives v
  | .type _ _, _ => false

/-- Every field pattern is seen in its field: it denotes it and is not lost, or is a stray
one. -/
def fieldsRead : List (String × Pattern) → List (String × Value) → Bool
  | [], _ => true
  | (name, p) :: fps, entries =>
      (match entryNamed entries name with
        | some fv => (denotes checker p fv && !lost p fv) || stray p fv
        | none => false) && fieldsRead fps entries

def someRead : List Pattern → Value → Bool
  | [], _ => false
  | p :: ps, v => ((denotes checker p v && !lost p v) || stray p v) || someRead ps v

end

/-- The two slips together. -/
def misread (p : Pattern) (v : Value) : Bool := lost checker p v || stray checker p v

/-- The pattern is seen in the value. -/
def read (p : Pattern) (v : Value) : Bool := (denotes checker p v && !lost checker p v) || stray checker p v

end

/-! ## Or-patterns bind nothing -/

mutual

/-- No alternative of an or-pattern binds a name, at any depth. -/
def plain : Pattern → Bool
  | .bind _ => true
  | .literal _ => true
  | .variant _ _ none => true
  | .variant _ _ (some fps) => plainFields fps
  | .or alternatives => plainAlternatives alternatives
  | .type _ _ => true

def plainFields : List (String × Pattern) → Bool
  | [] => true
  | (_, p) :: fps => plain p && plainFields fps

def plainAlternatives : List Pattern → Bool
  | [] => true
  | p :: ps => (patternBindings p).isEmpty && plain p && plainAlternatives ps

end

section

variable {checker : Checker}

mutual

theorem plain_of_bindPattern : ∀ (p : Pattern) (ty : Ty) (env env' : TyEnv),
    bindPattern checker p ty env = .ok env' → plain p = true
  | .bind _, _, _, _, _ | .literal _, _, _, _, _ | .type _ _, _, _, _, _
  | .variant _ _ none, _, _, _, _ => by simp only [plain]
  | .variant enumName variantName (some fps), ty, env, env', h => by
      simp only [bindPattern] at h
      cases hfields : checker.variantFieldTypes ty enumName variantName with
      | error e => simp only [hfields] at h; cases h
      | ok variantFields =>
          simp only [hfields] at h
          exact plainFields_of_bindFields enumName variantName variantFields fps env env' h
  | .or alternatives, ty, env, env', h => by
      simp only [bindPattern] at h
      exact plainAlternatives_of_bindAlternatives alternatives ty env env' h

theorem plainFields_of_bindFields (enumName variantName : String)
    (variantFields : List (String × Ty)) : ∀ (fps : List (String × Pattern)) (env env' : TyEnv),
    bindFields checker enumName variantName variantFields fps env = .ok env' →
      plainFields fps = true
  | [], _, _, _ => by simp only [plainFields]
  | (name, p) :: fps, env, env', h => by
      simp only [bindFields] at h
      cases hfind : variantFields.find? fun f => f.1 == name with
      | none => simp only [hfind] at h; cases h
      | some f =>
          simp only [hfind] at h
          cases hp : bindPattern checker p f.2 env with
          | error e => simp only [hp] at h; cases h
          | ok env₁ =>
              simp only [hp] at h
              simp only [plainFields, plain_of_bindPattern p f.2 env env₁ hp, Bool.true_and]
              exact plainFields_of_bindFields enumName variantName variantFields fps env₁ env' h

theorem plainAlternatives_of_bindAlternatives : ∀ (ps : List Pattern) (ty : Ty)
    (env env' : TyEnv), bindAlternatives checker ps ty env = .ok env' →
      plainAlternatives ps = true
  | [], _, _, _, _ => by simp only [plainAlternatives]
  | p :: ps, ty, env, env', h => by
      simp only [bindAlternatives] at h
      split at h
      · rename_i hnone
        cases hp : bindPattern checker p ty env with
        | error e => simp only [hp] at h; cases h
        | ok env₁ =>
            simp only [hp] at h
            simp only [plainAlternatives, hnone, plain_of_bindPattern p ty env env₁ hp,
              Bool.true_and]
            exact plainAlternatives_of_bindAlternatives ps ty env₁ env' h
      · cases h

end

mutual

theorem captures_eq_nil : ∀ (p : Pattern) (v : Value), patternBindings p = [] →
    captures p v = []
  | .bind _, _, h | .type _ _, _, h => by simp only [patternBindings] at h; cases h
  | .literal _, _, _ | .or _, _, _ | .variant _ _ none, _, _ => by simp only [captures]
  | .variant _ _ (some fps), v, h => by
      simp only [patternBindings] at h
      cases v with
      | variant e n entries => simpa only [captures] using fieldCaptures_eq_nil fps entries h
      | _ => simp only [captures]

theorem fieldCaptures_eq_nil : ∀ (fps : List (String × Pattern)) (entries : List (String × Value)),
    fieldPatternBindings fps = [] → fieldCaptures fps entries = []
  | [], _, _ => by simp only [fieldCaptures]
  | (name, p) :: fps, entries, h => by
      simp only [fieldPatternBindings, List.append_eq_nil_iff] at h
      simp only [fieldCaptures, fieldCaptures_eq_nil fps entries h.2, List.append_nil]
      cases entryNamed entries name with
      | none => rfl
      | some fv => exact captures_eq_nil p fv h.1

end

theorem literalMatches_eq (lit : LiteralPattern) (v : Value) :
    literalMatches lit v = (literalDenotes lit v && !literalLost lit v) := by
  cases lit <;> cases v <;> simp [literalMatches, literalDenotes, literalLost]

mutual

/-- The interpreter's matcher sees what `read` says and then binds what the meaning binds. -/
theorem tryMatchPattern_eq : ∀ (p : Pattern) (v : Value), plain p = true →
    tryMatchPattern checker p v = if read checker p v then some (captures p v) else none
  | .bind _, _, _ => by
      simp [tryMatchPattern, read, denotes, lost, captures]
  | .literal lit, v, _ => by
      simp [tryMatchPattern, read, denotes, lost, stray, captures, literalMatches_eq]
  | .type name texpr, v, _ => by
      simp only [tryMatchPattern, read, denotes, lost, stray, captures, Bool.not_false,
        Bool.and_true, Bool.or_false]
      split <;> rename_i h <;> simp [h]
  | .variant enumName variantName none, v, _ => by
      cases v with
      | variant e n entries =>
          simp only [tryMatchPattern, read, denotes, lost, stray, captures]
          by_cases hn : n = variantName <;> by_cases he : e = enumName <;> simp [hn, he]
      | _ => rfl
  | .variant enumName variantName (some fps), v, h => by
      simp only [plain] at h
      cases v with
      | variant e n entries =>
          simp only [tryMatchPattern, read, denotes, lost, stray, captures,
            tryMatchFields_eq fps entries h]
          by_cases hn : n = variantName <;> by_cases he : e = enumName <;>
            by_cases hd : fieldsDenote checker fps entries <;>
            by_cases hr : fieldsRead checker fps entries <;> simp [hn, he, hd, hr]
      | _ => rfl
  | .or alternatives, v, h => by
      simp only [plain] at h
      simp only [tryMatchPattern, read, denotes, lost, stray, captures,
        tryMatchSome_eq alternatives v h]
      by_cases hd : someDenotes checker alternatives v <;>
        by_cases hr : someRead checker alternatives v <;> simp [hd, hr]

theorem tryMatchFields_eq : ∀ (fps : List (String × Pattern)) (entries : List (String × Value)),
    plainFields fps = true →
    tryMatchFields checker fps entries =
      if fieldsRead checker fps entries then some (fieldCaptures fps entries) else none
  | [], _, _ => by simp [tryMatchFields, fieldsRead, fieldCaptures]
  | (name, p) :: fps, entries, h => by
      simp only [plainFields, Bool.and_eq_true] at h
      simp only [tryMatchFields, fieldsRead, fieldCaptures, tryMatchFields_eq fps entries h.2]
      obtain hv | ⟨fv, hv⟩ := (entryNamed entries name).eq_none_or_eq_some
      · simp [hv]
      · simp only [hv, Option.bind_eq_bind, Option.bind_some, tryMatchPattern_eq p fv h.1, read]
        by_cases hp : (denotes checker p fv && !lost checker p fv || stray checker p fv) <;>
            by_cases hrest : fieldsRead checker fps entries <;> simp [hp, hrest]

theorem tryMatchSome_eq : ∀ (ps : List Pattern) (v : Value), plainAlternatives ps = true →
    tryMatchSome checker ps v = if someRead checker ps v then some [] else none
  | [], _, _ => by simp [tryMatchSome, someRead]
  | p :: ps, v, h => by
      simp only [plainAlternatives, Bool.and_eq_true, List.isEmpty_iff] at h
      simp only [tryMatchSome, someRead, tryMatchPattern_eq p v h.1.2, tryMatchSome_eq ps v h.2,
        captures_eq_nil p v h.1.1, read]
      by_cases hp : (denotes checker p v && !lost checker p v || stray checker p v) <;>
        by_cases hrest : someRead checker ps v <;> simp [hp, hrest]

end

theorem denotes_of_lost (p : Pattern) (v : Value) (h : lost checker p v = true) :
    denotes checker p v = true := by
  cases p with
  | bind | type => simp [lost] at h
  | literal lit => cases lit <;> cases v <;> simp_all [lost, literalLost, denotes, literalDenotes]
  | or alternatives => simp_all [lost, denotes]
  | variant enumName variantName fields =>
      cases v with
      | variant e n entries => cases fields <;> simp_all [lost, denotes]
      | _ => simp [lost] at h

theorem not_denotes_of_stray (p : Pattern) (v : Value) (h : stray checker p v = true) :
    denotes checker p v = false := by
  cases p with
  | bind | type | literal => simp [stray] at h
  | or alternatives => simp_all [stray, denotes]
  | variant enumName variantName fields =>
      cases v with
      | variant e n entries =>
          cases fields with
          | none => simp_all [stray, denotes]
          | some fps =>
              simp only [stray, Bool.and_eq_true, Bool.or_eq_true, bne_iff_ne, ne_eq,
                Bool.not_eq_true'] at h
              obtain ⟨_, _, hne | hfields⟩ := h
              · simp [denotes, hne]
              · simp [denotes, hfields]
      | _ => simp [stray] at h

/-- The matcher and the meaning part exactly at a misread pattern. -/
theorem read_eq_denotes_iff (p : Pattern) (v : Value) :
    read checker p v = denotes checker p v ↔ misread checker p v = false := by
  have hlost : lost checker p v = true → _ := denotes_of_lost p v
  have hstray : stray checker p v = true → _ := not_denotes_of_stray p v
  simp only [read, misread]
  cases hl : lost checker p v <;> cases hs : stray checker p v <;> simp_all

end

/-! ## The arm taken -/

section

variable {matcher : Pattern → Value → Option Bindings}
variable {guards : Nat → Bindings → Except RuntimeError Value} {v : Value}

theorem le_of_taken (arms : List MatchArm) : ∀ {i j arm bs},
    selectArm matcher guards v i arms = .taken j arm bs → i ≤ j := by
  induction arms with
  | nil => exact fun h => nomatch h
  | cons a arms ih =>
      intro i j arm bs h
      simp only [selectArm] at h
      split at h
      · have := ih h
        omega
      · split at h
        · cases h
          exact Nat.le_refl _
        · have := ih h
          omega
        · cases h

theorem le_of_guardFails (arms : List MatchArm) : ∀ {i j e},
    selectArm matcher guards v i arms = .guardFails j e → i ≤ j := by
  induction arms with
  | nil => exact fun h => nomatch h
  | cons a arms ih =>
      intro i j e h
      simp only [selectArm] at h
      split at h
      · have := ih h
        omega
      · split at h
        · cases h
        · have := ih h
          omega
        · cases h
          exact Nat.le_refl _

/-- Where a search that stops at an arm ends. -/
def stopAt (i : Nat) (arm : MatchArm) (bs : Bindings) : Except RuntimeError Bool → Selection
  | .ok _ => .taken i arm bs
  | .error e => .guardFails i e

theorem selectArm_succ_ne_stopAt {arms : List MatchArm} {i : Nat} {arm : MatchArm}
    {bs : Bindings} {verdict : Except RuntimeError Bool} :
    selectArm matcher guards v (i + 1) arms ≠ stopAt i arm bs verdict := by
  intro h
  cases verdict with
  | ok b =>
      have := le_of_taken arms h
      omega
  | error e =>
      have := le_of_guardFails arms h
      omega

theorem selectArm_cons_of_pass {i : Nat} {a : MatchArm} {arms : List MatchArm}
    (h : ∀ bs, matcher a.pattern v = some bs → a.verdict (guards i bs) = .ok false) :
    selectArm matcher guards v i (a :: arms) = selectArm matcher guards v (i + 1) arms := by
  cases hm : matcher a.pattern v with
  | none => simp only [selectArm, hm]
  | some bs => simp only [selectArm, hm, h bs hm]

theorem selectArm_cons_of_stop {i : Nat} {a : MatchArm} {arms : List MatchArm} {bs : Bindings}
    (hm : matcher a.pattern v = some bs) (hv : a.verdict (guards i bs) ≠ .ok false) :
    selectArm matcher guards v i (a :: arms) = stopAt i a bs (a.verdict (guards i bs)) := by
  simp only [selectArm, hm]
  split
  · rename_i h
    rw [h, stopAt]
  · exact absurd ‹_› hv
  · rename_i h
    rw [h, stopAt]

end

section

variable (checker : Checker) (guards : Nat → Bindings → Except RuntimeError Value) (v : Value)

/-- The verdict on an arm whose pattern denotes the value. -/
def armVerdict (k : Nat) (arm : MatchArm) : Except RuntimeError Bool :=
  arm.verdict (guards k (captures arm.pattern v))

/-- The search by meaning goes past an arm: it does not denote the value, or its guard is
false. -/
def Passed (k : Nat) (arm : MatchArm) : Prop :=
  denotes checker arm.pattern v = true → armVerdict guards v k arm = .ok false

/-- Every arm before the `k`-th is passed; the search numbers the arms from `i`. -/
def Reached (i : Nat) (arms : List MatchArm) (k : Nat) : Prop :=
  ∀ j arm, j < k → arms[j]? = some arm → Passed checker guards v (i + j) arm

end

section

variable {checker : Checker} {guards : Nat → Bindings → Except RuntimeError Value} {v : Value}

theorem reached_zero {i : Nat} {arms : List MatchArm} : Reached checker guards v i arms 0 :=
  fun _ _ hj => absurd hj (Nat.not_lt_zero _)

theorem reached_succ {i : Nat} {a : MatchArm} {arms : List MatchArm} {k : Nat} :
    Reached checker guards v i (a :: arms) (k + 1) ↔
      Passed checker guards v i a ∧ Reached checker guards v (i + 1) arms k := by
  constructor
  · intro h
    refine ⟨h 0 a (Nat.succ_pos k) rfl, fun j arm hj harm => ?_⟩
    have hpassed := h (j + 1) arm (by omega) (by simpa using harm)
    rwa [show i + (j + 1) = i + 1 + j by omega] at hpassed
  · rintro ⟨ha, hrest⟩ j arm hj harm
    cases j with
    | zero =>
        obtain rfl : a = arm := by simpa using harm
        exact ha
    | succ j =>
        have hpassed := hrest j arm (by omega) (by simpa using harm)
        rwa [show i + (j + 1) = i + 1 + j by omega]

theorem denoted_eq_some {p : Pattern} {bs : Bindings} :
    denoted checker p v = some bs ↔ denotes checker p v = true ∧ captures p v = bs := by
  simp [denoted]

/-- The reference search takes an arm exactly when it is the first that denotes the value
under a true guard. -/
theorem selectArm_denoted_eq_taken_iff (arms : List MatchArm) :
    ∀ {i k : Nat} {arm : MatchArm} {bs : Bindings},
    selectArm (denoted checker) guards v i arms = .taken (i + k) arm bs ↔
      arms[k]? = some arm ∧ bs = captures arm.pattern v ∧ denotes checker arm.pattern v = true ∧
        armVerdict guards v (i + k) arm = .ok true ∧ Reached checker guards v i arms k := by
  induction arms with
  | nil => simp [selectArm]
  | cons a arms ih =>
      intro i k arm bs
      by_cases hpassed : Passed checker guards v i a
      · have hpass : ∀ bs, denoted checker a.pattern v = some bs →
            a.verdict (guards i bs) = .ok false := by
          intro bs hbs
          obtain ⟨hd, rfl⟩ := denoted_eq_some.1 hbs
          exact hpassed hd
        rw [selectArm_cons_of_pass hpass]
        cases k with
        | zero =>
            constructor
            · intro h
              have := le_of_taken arms h
              omega
            · rintro ⟨harm, rfl, hd, hverdict, _⟩
              obtain rfl : a = arm := by simpa using harm
              have hfalse := hpassed hd
              rw [Nat.add_zero] at hverdict
              rw [hverdict] at hfalse
              cases hfalse
        | succ k =>
            rw [show i + (k + 1) = i + 1 + k by omega, ih, List.getElem?_cons_succ, reached_succ,
              and_iff_right hpassed]
      · -- the search stops here: the arm denotes the value and its guard is not false
        obtain ⟨hd, hverdict⟩ := Classical.not_imp.1 hpassed
        have hstop : selectArm (denoted checker) guards v i (a :: arms) =
            stopAt i a (captures a.pattern v) (armVerdict guards v i a) :=
          selectArm_cons_of_stop (denoted_eq_some.2 ⟨hd, rfl⟩) hverdict
        rw [hstop]
        cases k with
        | zero =>
            simp only [List.getElem?_cons_zero, Option.some.injEq, Nat.add_zero, reached_zero,
              and_true]
            cases hv : armVerdict guards v i a with
            | error e =>
                constructor
                · rintro ⟨⟩
                · rintro ⟨rfl, _, _, h⟩
                  rw [hv] at h
                  cases h
            | ok b =>
                have hb : b = true := by
                  cases b with
                  | true => rfl
                  | false => exact absurd hv hverdict
                subst hb
                constructor
                · rintro ⟨⟩
                  exact ⟨rfl, rfl, hd, hv⟩
                · rintro ⟨rfl, rfl, _, _⟩
                  rfl
        | succ k =>
            rw [reached_succ]
            constructor
            · intro h
              cases hv : armVerdict guards v i a <;> simp [hv, stopAt] at h
            · rintro ⟨_, _, _, _, ha, _⟩
              exact absurd ha hpassed

theorem forall_arms_cons {P : Nat → MatchArm → Prop} {a : MatchArm} {arms : List MatchArm} :
    (∀ k arm, (a :: arms)[k]? = some arm → P k arm) ↔
      P 0 a ∧ ∀ k arm, arms[k]? = some arm → P (k + 1) arm := by
  constructor
  · exact fun h => ⟨h 0 a rfl, fun k arm harm => h (k + 1) arm (by simpa using harm)⟩
  · rintro ⟨ha, hrest⟩ k arm harm
    cases k with
    | zero =>
        obtain rfl : a = arm := by simpa using harm
        exact ha
    | succ k => exact hrest k arm (by simpa using harm)

/-- The two searches agree exactly when every misread arm that is reached has a false
guard. -/
theorem selectArm_eq_iff (arms : List MatchArm) (hplain : ∀ a ∈ arms, plain a.pattern = true) :
    ∀ i, selectArm (tryMatchPattern checker) guards v i arms =
        selectArm (denoted checker) guards v i arms ↔
      ∀ k arm, arms[k]? = some arm → Reached checker guards v i arms k →
        misread checker arm.pattern v = true → armVerdict guards v (i + k) arm = .ok false := by
  induction arms with
  | nil => simp [selectArm]
  | cons a arms ih =>
      intro i
      have hmatch : tryMatchPattern checker a.pattern v = _ :=
        tryMatchPattern_eq a.pattern v (hplain a (by simp))
      have hrest := ih (fun b hb => hplain b (List.mem_cons_of_mem _ hb)) (i + 1)
      have hread : read checker a.pattern v = _ ↔ _ := read_eq_denotes_iff a.pattern v
      by_cases hfalse : armVerdict guards v i a = .ok false
      · -- both searches go past this arm, whatever it says of the value
        have hcode : selectArm (tryMatchPattern checker) guards v i (a :: arms) =
            selectArm (tryMatchPattern checker) guards v (i + 1) arms := by
          refine selectArm_cons_of_pass fun bs hbs => ?_
          obtain ⟨_, rfl⟩ : read checker a.pattern v = true ∧ captures a.pattern v = bs := by
            simpa [hmatch] using hbs
          exact hfalse
        have hmeaning : selectArm (denoted checker) guards v i (a :: arms) =
            selectArm (denoted checker) guards v (i + 1) arms := by
          refine selectArm_cons_of_pass fun bs hbs => ?_
          obtain ⟨_, rfl⟩ := denoted_eq_some.1 hbs
          exact hfalse
        rw [hcode, hmeaning, hrest, forall_arms_cons]
        simp [hfalse, reached_succ, Passed, Nat.add_assoc, Nat.add_comm 1]
      · have hstop : ∀ {matcher : Pattern → Value → Option Bindings},
            matcher a.pattern v = some (captures a.pattern v) →
              selectArm matcher guards v i (a :: arms) =
                stopAt i a (captures a.pattern v) (armVerdict guards v i a) :=
          fun hm => selectArm_cons_of_stop hm hfalse
        have hpass : ∀ {matcher : Pattern → Value → Option Bindings},
            matcher a.pattern v = none → selectArm matcher guards v i (a :: arms) =
              selectArm matcher guards v (i + 1) arms :=
          fun hm => selectArm_cons_of_pass fun bs hbs => by rw [hm] at hbs; cases hbs
        rw [forall_arms_cons]
        cases hr : read checker a.pattern v <;> cases hd : denotes checker a.pattern v <;>
          simp only [hr, hd, true_iff, false_iff, Bool.not_eq_false, reduceCtorEq] at hread
        · -- neither sees the value: both go past
          rw [hpass (by simp [hmatch, hr]), hpass (by simp [denoted, hd]), hrest]
          simp [hread, reached_succ, Passed, hd, Nat.add_assoc, Nat.add_comm 1]
        · -- lost: the meaning stops here, the interpreter does not
          rw [hpass (by simp [hmatch, hr]), hstop (by simp [denoted, hd])]
          exact iff_of_false selectArm_succ_ne_stopAt
            fun h => hfalse (h.1 reached_zero hread)
        · -- stray: the interpreter stops here, the meaning does not
          rw [hstop (by simp [hmatch, hr]), hpass (by simp [denoted, hd])]
          exact iff_of_false (Ne.symm selectArm_succ_ne_stopAt)
            fun h => hfalse (h.1 reached_zero hread)
        · -- both stop at this arm, and no later one is reached
          rw [hstop (by simp [hmatch, hr]), hstop (by simp [denoted, hd])]
          refine iff_of_true rfl ⟨fun _ hm => ?_, fun k arm _ hk => ?_⟩
          · rw [hread] at hm
            cases hm
          · exact absurd ((reached_succ.1 hk).1 hd) hfalse

theorem forM_ok {α : Type} {f : α → Except CheckError Unit} :
    ∀ {xs : List α}, xs.forM f = .ok () → ∀ x ∈ xs, f x = .ok ()
  | [], _, _, hx => by cases hx
  | x :: xs, h, y, hy => by
      change (f x >>= fun _ => xs.forM f) = .ok () at h
      cases hx : f x with
      | error e => rw [hx] at h; cases h
      | ok u =>
          rw [hx] at h
          rcases List.mem_cons.1 hy with rfl | hmem
          · exact hx
          · exact forM_ok h y hmem

/-- The patterns of an accepted match pass `bind_pattern`. -/
theorem exists_bindPattern_of_checkMatch {checkGuard checkBody scrutineeTy expected env}
    {arms : List MatchArm}
    (h : checkMatch checker checkGuard checkBody scrutineeTy arms expected env = .ok ()) :
    ∀ a ∈ arms, ∃ armEnv, bindPattern checker a.pattern scrutineeTy env = .ok armEnv := by
  intro a ha
  simp only [checkMatch] at h
  cases hex : checkExhaustive checker scrutineeTy arms with
  | error e => rw [hex] at h; cases h
  | ok u =>
      rw [hex] at h
      have harm := forM_ok h a ha
      cases hb : bindPattern checker a.pattern scrutineeTy env with
      | error e => rw [hb] at harm; cases harm
      | ok armEnv => exact ⟨armEnv, rfl⟩

/-- An accepted match takes the arm that denotes the value, under every outcome of the
guards for which each misread arm that is reached has a false guard. -/
theorem selects_denoting_iff {checkGuard : Expr → TyEnv → Except CheckError Unit}
    {checkBody : MatchArmBody → Ty → TyEnv → Except CheckError Unit} {scrutineeTy expected : Ty}
    {arms : List MatchArm} {env : TyEnv}
    (haccepted : checkMatch checker checkGuard checkBody scrutineeTy arms expected env = .ok ()) :
    selectArm (tryMatchPattern checker) guards v 0 arms =
        selectArm (denoted checker) guards v 0 arms ↔
      ∀ k arm, arms[k]? = some arm → Reached checker guards v 0 arms k →
        misread checker arm.pattern v = true → armVerdict guards v k arm = .ok false := by
  have hplain : ∀ a ∈ arms, plain a.pattern = true := by
    intro a ha
    obtain ⟨armEnv, hbind⟩ := exists_bindPattern_of_checkMatch haccepted a ha
    exact plain_of_bindPattern a.pattern scrutineeTy env armEnv hbind
  simpa only [Nat.zero_add] using selectArm_eq_iff arms hplain 0

end

/-! ## One literal syntax, two integer types -/

def five : I64 := SInt.ofInt 5 inRange_five

/-- `match n { 5 => true, _ => false }`. -/
def fiveOrElse : List MatchArm :=
  [.mk (.literal (.int five)) none (.expr (.bool true)),
    .mk (.bind "_") none (.expr (.bool false))]

def noDeclarations : Checker := ⟨[], [], List.nodup_nil, List.nodup_nil⟩

/-- The checker accepts the match against `Int` and against `Int64`. -/
theorem fiveOrElse_accepted {ty : Ty} (h : ty = .int ∨ ty = .int64) :
    checkMatch noDeclarations (fun _ _ => .ok ()) (fun _ _ _ => .ok ()) ty fiveOrElse .bool [] =
      .ok () := by
  rcases h with rfl | rfl <;> rfl

/-- The `Int64` 5 takes the second arm; its meaning is the first. -/
theorem five_int64_skips_its_arm :
    checkMatch noDeclarations (fun _ _ => .ok ()) (fun _ _ _ => .ok ()) .int64 fiveOrElse .bool []
        = .ok () ∧
      selectArm (tryMatchPattern noDeclarations) (fun _ _ => .ok .null) (.int64 five) 0
        fiveOrElse = .taken 1 (.mk (.bind "_") none (.expr (.bool false)))
          [("_", .int64 five)] ∧
      selectArm (denoted noDeclarations) (fun _ _ => .ok .null) (.int64 five) 0
        fiveOrElse = .taken 0 (.mk (.literal (.int five)) none (.expr (.bool true))) [] :=
  ⟨fiveOrElse_accepted (.inr rfl), rfl, rfl⟩

/-- The `Int` 5 takes the first. -/
theorem five_int_takes_its_arm :
    selectArm (tryMatchPattern noDeclarations) (fun _ _ => .ok .null) (.int five) 0
        fiveOrElse =
      selectArm (denoted noDeclarations) (fun _ _ => .ok .null) (.int five) 0
        fiveOrElse := by
  refine (selects_denoting_iff (fiveOrElse_accepted (.inl rfl))).2 fun k arm harm _ hmis => ?_
  match k with
  | 0 =>
      obtain rfl : _ = arm := Option.some.inj harm
      cases hmis
  | 1 =>
      obtain rfl : _ = arm := Option.some.inj harm
      cases hmis
  | k + 2 => cases harm

end CScript
