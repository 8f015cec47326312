import Mathlib.Data.List.Basic
import Mathlib.Algebra.GroupWithZero.Nat

/-!
# Cut texts and framed texts

`clip` keeps the longest prefix of a text within a number of bytes. `frames` writes each part
behind its own size, which makes the parts readable again whatever they contain, as long as
what follows the last part does not look like a size.
-/

namespace CScript.Lib

variable {α : Type} (size : α → Nat)

def totalSize (l : List α) : Nat := (l.map size).sum

/-- The longest prefix of at most `n` bytes. -/
def clip : Nat → List α → List α
  | _, [] => []
  | n, a :: l => if size a ≤ n then a :: clip (n - size a) l else []

variable {size}

theorem clip_append {n : Nat} {p l : List α} (h : totalSize size p ≤ n) :
    clip size n (p ++ l) = p ++ clip size (n - totalSize size p) l := by
  induction p generalizing n with
  | nil => rfl
  | cons a p ih =>
      have head : totalSize size (a :: p) = size a + totalSize size p := by
        simp [totalSize]
      rw [head] at h
      rw [List.cons_append, clip, if_pos (by omega), ih (by omega), head, Nat.sub_sub]
      rfl

theorem clip_of_fits {n : Nat} {l : List α} (h : totalSize size l ≤ n) : clip size n l = l := by
  have whole := clip_append (l := []) h
  rw [List.append_nil] at whole
  rw [whole]
  unfold clip
  exact List.append_nil l

theorem totalSize_clip_le (n : Nat) (l : List α) : totalSize size (clip size n l) ≤ n := by
  induction l generalizing n with
  | nil => exact Nat.zero_le n
  | cons a l ih =>
      rw [clip]
      split
      · next fits =>
          have rest := ih (n - size a)
          have head : totalSize size (a :: clip size (n - size a) l) =
              size a + totalSize size (clip size (n - size a) l) := by simp [totalSize]
          omega
      · exact Nat.zero_le n

theorem clip_clip (n : Nat) (l : List α) : clip size n (clip size n l) = clip size n l :=
  clip_of_fits (totalSize_clip_le n l)

/-- Two prefixes of one text with the same size are the same. -/
theorem append_inj_of_totalSize (hsize : ∀ a, 0 < size a) {p p' r r' : List α}
    (h : p ++ r = p' ++ r') (hp : totalSize size p = totalSize size p') : p = p' ∧ r = r' := by
  induction p generalizing p' with
  | nil =>
      cases p' with
      | nil => exact ⟨rfl, h⟩
      | cons a p' =>
          have pos := hsize a
          simp [totalSize] at hp
          omega
  | cons a p ih =>
      cases p' with
      | nil =>
          have pos := hsize a
          simp [totalSize] at hp
          omega
      | cons a' p' =>
          simp only [List.cons_append, List.cons.injEq] at h
          obtain ⟨rfl, rest⟩ := h
          have tails : totalSize size p = totalSize size p' := by
            simpa [totalSize] using hp
          obtain ⟨rfl, rfl⟩ := ih rest tails
          exact ⟨rfl, rfl⟩

/-- A text up to the first mark is known from the whole. -/
theorem append_inj_of_mark {mark : α} {p p' r r' : List α} (hp : mark ∉ p) (hp' : mark ∉ p')
    (h : p ++ mark :: r = p' ++ mark :: r') : p = p' ∧ r = r' := by
  induction p generalizing p' with
  | nil =>
      cases p' with
      | nil => exact ⟨rfl, by simpa using h⟩
      | cons a p' =>
          simp only [List.nil_append, List.cons_append, List.cons.injEq] at h
          exact absurd h.1 fun heq => hp' (heq ▸ List.mem_cons_self)
  | cons a p ih =>
      cases p' with
      | nil =>
          simp only [List.nil_append, List.cons_append, List.cons.injEq] at h
          exact absurd h.1 fun heq => hp (heq ▸ List.mem_cons_self)
      | cons a' p' =>
          simp only [List.cons_append, List.cons.injEq] at h
          obtain ⟨rfl, rest⟩ := h
          obtain ⟨rfl, rfl⟩ := ih (fun hm => hp (List.mem_cons_of_mem _ hm))
            (fun hm => hp' (List.mem_cons_of_mem _ hm)) rest
          exact ⟨rfl, rfl⟩

/-- A text whose letters are of one kind up to a letter of another is known from the whole. -/
theorem append_inj_of_kind {D : α → Prop} {p p' r r' : List α} (hp : ∀ a ∈ p, D a)
    (hp' : ∀ a ∈ p', D a) (hr : ∀ a ∈ r.head?, ¬ D a) (hr' : ∀ a ∈ r'.head?, ¬ D a)
    (h : p ++ r = p' ++ r') : p = p' ∧ r = r' := by
  induction p generalizing p' with
  | nil =>
      cases p' with
      | nil => exact ⟨rfl, h⟩
      | cons a p' =>
          refine absurd (hp' a List.mem_cons_self) (hr a ?_)
          rw [List.nil_append] at h
          rw [h]
          rfl
  | cons a p ih =>
      cases p' with
      | nil =>
          refine absurd (hp a List.mem_cons_self) (hr' a ?_)
          rw [List.nil_append] at h
          rw [← h]
          rfl
      | cons a' p' =>
          simp only [List.cons_append, List.cons.injEq] at h
          obtain ⟨rfl, rest⟩ := h
          obtain ⟨rfl, rfl⟩ := ih (fun b hb => hp b (List.mem_cons_of_mem _ hb))
            (fun b hb => hp' b (List.mem_cons_of_mem _ hb)) rest
          exact ⟨rfl, rfl⟩

/-- Each part behind the text of its size and a mark. -/
def frames (sizeText : Nat → List α) (mark : α) (size : α → Nat) (parts : List (List α)) :
    List α :=
  parts.flatMap fun p => sizeText (totalSize size p) ++ mark :: p

section

variable {sizeText : Nat → List α} {mark : α} {D : α → Prop}

theorem frames_cons (p : List α) (parts : List (List α)) :
    frames sizeText mark size (p :: parts) =
      sizeText (totalSize size p) ++ mark :: (p ++ frames sizeText mark size parts) := by
  simp [frames]

/-- The parts and what follows them are known from the whole. -/
theorem frames_inj (hsize : ∀ a, 0 < size a) (hinj : Function.Injective sizeText)
    (hdigits : ∀ n, ∀ a ∈ sizeText n, D a) (hne : ∀ n, sizeText n ≠ []) (hmark : ¬ D mark)
    {parts parts' : List (List α)} {t t' : List α} (ht : ∀ a ∈ t.head?, ¬ D a)
    (ht' : ∀ a ∈ t'.head?, ¬ D a)
    (h : frames sizeText mark size parts ++ t = frames sizeText mark size parts' ++ t') :
    parts = parts' ∧ t = t' := by
  have starts : ∀ (p : List α) (r : List α), ∃ a ∈ (sizeText (totalSize size p) ++ r).head?, D a := by
    intro p r
    cases hd : sizeText (totalSize size p) with
    | nil => exact absurd hd (hne _)
    | cons a l => exact ⟨a, rfl, hdigits (totalSize size p) a (by rw [hd]; exact List.mem_cons_self)⟩
  induction parts generalizing parts' with
  | nil =>
      cases parts' with
      | nil => exact ⟨rfl, h⟩
      | cons p' parts' =>
          rw [frames_cons, List.append_assoc] at h
          obtain ⟨a, ha, hD⟩ := starts p' (mark :: (p' ++ frames sizeText mark size parts') ++ t')
          exact absurd hD (ht a (by rw [← h] at ha; exact ha))
  | cons p parts ih =>
      cases parts' with
      | nil =>
          rw [frames_cons, List.append_assoc] at h
          obtain ⟨a, ha, hD⟩ := starts p (mark :: (p ++ frames sizeText mark size parts) ++ t)
          exact absurd hD (ht' a (by rw [h] at ha; exact ha))
      | cons p' parts' =>
          simp only [frames_cons, List.append_assoc, List.cons_append] at h
          have marked : ∀ (r : List α), ∀ a ∈ (mark :: r).head?, ¬ D a := by
            intro r a ha
            rw [List.head?_cons, Option.mem_some_iff] at ha
            exact ha ▸ hmark
          obtain ⟨hsizes, rest⟩ := append_inj_of_kind (hdigits _) (hdigits _) (marked _) (marked _) h
          rw [List.cons.injEq] at rest
          obtain ⟨rfl, others⟩ := append_inj_of_totalSize hsize rest.2 (hinj hsizes)
          obtain ⟨rfl, rfl⟩ := ih others
          exact ⟨rfl, rfl⟩

end

end CScript.Lib
