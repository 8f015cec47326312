import Mathlib.Data.List.Nodup
import Mathlib.Order.Basic
import Mathlib.Order.Lattice

/-!
# Pages behind a cursor

Rows are read in pages of bounded length, each behind the last key of the page before it, while
the rows change. A page is known by what holds of it; no two rows of one reading share a key.
-/

namespace CScript.Lib

variable {α κ : Type*} [LinearOrder κ] {key : α → κ}

/-- The key is behind the cursor; before the first page everything is. -/
def Behind (cursor : Option κ) (k : κ) : Prop := ∀ c ∈ cursor, c < k

/-- The first rows behind the cursor, in the order of their keys, at most `n` of them. -/
structure IsPage (key : α → κ) (n : Nat) (cursor : Option κ) (rows page : List α) : Prop where
  sorted : page.Pairwise fun a b => key a < key b
  mem : ∀ r ∈ page, r ∈ rows ∧ Behind cursor (key r)
  bounded : page.length ≤ n
  /-- A row that is left out comes after a full page. -/
  full : ∀ r ∈ rows, Behind cursor (key r) → r ∉ page →
    page.length = n ∧ ∀ p ∈ page, key p < key r

/-- The key of the last row, or the cursor as it was. -/
def nextCursor (key : α → κ) (cursor : Option κ) (page : List α) : Option κ :=
  (page.getLast?.map key).or cursor

/-- Each page is read behind the one before it, from the rows of its own time. -/
def Follows (key : α → κ) (n : Nat) : Option κ → List (List α × List α) → Prop
  | _, [] => True
  | cursor, (rows, page) :: later =>
      IsPage key n cursor rows page ∧ Follows key n (nextCursor key cursor page) later

def lastCursor (key : α → κ) : Option κ → List (List α × List α) → Option κ
  | cursor, [] => cursor
  | cursor, (_, page) :: later => lastCursor key (nextCursor key cursor page) later

def keysOf (key : α → κ) (steps : List (List α × List α)) : List κ :=
  steps.flatMap fun step => step.2.map key

section

variable {n : Nat} {cursor : Option κ} {rows page : List α} {steps : List (List α × List α)}

theorem behind_none (k : κ) : Behind none k := nofun

/-- The next cursor is not before a key of the page, nor before the old cursor. -/
theorem behind_of_nextCursor (h : IsPage key n cursor rows page) {k : κ}
    (hk : Behind (nextCursor key cursor page) k) : Behind cursor k ∧ ∀ p ∈ page, key p < k := by
  unfold nextCursor at hk
  cases hlast : page.getLast? with
  | none =>
      rw [List.getLast?_eq_none_iff] at hlast
      rw [hlast] at hk ⊢
      exact ⟨hk, nofun⟩
  | some last =>
      rw [hlast] at hk
      have hlt : key last < k := hk _ rfl
      obtain ⟨front, rfl⟩ := List.getLast?_eq_some_iff.mp hlast
      refine ⟨fun c hc => ?_, fun p hp => ?_⟩
      · have hlastmem : last ∈ front ++ [last] := List.mem_append_right _ List.mem_cons_self
        exact lt_trans ((h.mem last hlastmem).2 c hc) hlt
      · rcases List.mem_append.mp hp with hp | hp
        · exact lt_trans ((List.pairwise_append.mp h.sorted).2.2 p hp last List.mem_cons_self) hlt
        · rw [List.mem_singleton.mp hp]
          exact hlt

/-- The keys of a run are behind its first cursor and increase. -/
theorem Follows.sorted (h : Follows key n cursor steps) :
    (keysOf key steps).Pairwise (· < ·) ∧ ∀ k ∈ keysOf key steps, Behind cursor k := by
  induction steps generalizing cursor with
  | nil => exact ⟨.nil, nofun⟩
  | cons step later ih =>
      obtain ⟨rows, page⟩ := step
      obtain ⟨hpage, hlater⟩ := h
      obtain ⟨hsorted, hbehind⟩ := ih hlater
      rw [keysOf, List.flatMap_cons]
      refine ⟨List.pairwise_append.mpr ⟨List.pairwise_map.mpr hpage.sorted, hsorted, ?_⟩, ?_⟩
      · intro k hk k' hk'
        obtain ⟨p, hp, rfl⟩ := List.mem_map.mp hk
        exact (behind_of_nextCursor hpage (hbehind k' hk')).2 p hp
      · intro k hk
        rcases List.mem_append.mp hk with hk | hk
        · obtain ⟨p, hp, rfl⟩ := List.mem_map.mp hk
          exact (hpage.mem p hp).2
        · exact (behind_of_nextCursor hpage (hbehind k hk)).1

/-- A key that is there at each page is on one of them, or is still behind the cursor. -/
theorem Follows.seen_or_behind (h : Follows key n cursor steps) {k : κ} (hk : Behind cursor k)
    (hthere : ∀ step ∈ steps, ∃ r ∈ step.1, key r = k) :
    k ∈ keysOf key steps ∨ Behind (lastCursor key cursor steps) k := by
  induction steps generalizing cursor with
  | nil => exact .inr hk
  | cons step later ih =>
      obtain ⟨rows, page⟩ := step
      obtain ⟨hpage, hlater⟩ := h
      obtain ⟨r, hr, rfl⟩ := hthere _ List.mem_cons_self
      rw [keysOf, List.flatMap_cons, List.mem_append]
      by_cases hmem : r ∈ page
      · exact .inl (.inl (List.mem_map_of_mem hmem))
      · have hnext : Behind (nextCursor key cursor page) (key r) := by
          intro c hc
          unfold nextCursor at hc
          cases hlast : page.getLast? with
          | none =>
              rw [hlast] at hc
              exact hk c hc
          | some last =>
              rw [hlast] at hc
              cases hc
              exact (hpage.full r hr hk hmem).2 last (List.mem_of_getLast? hlast)
        exact (ih hlater hnext fun step hstep =>
          hthere step (List.mem_cons_of_mem _ hstep)).imp_left .inr

/-- Where a page may have rows, an empty one says that none is behind the cursor. -/
theorem IsPage.not_behind_of_nil (hn : 0 < n) (h : IsPage key n cursor rows []) :
    ∀ r ∈ rows, ¬ Behind cursor (key r) := by
  intro r hr hbehind
  have hlen := (h.full r hr hbehind List.not_mem_nil).1
  rw [List.length_nil] at hlen
  omega

/-- The front of what is behind the cursor, once it is in order, is a page. -/
theorem isPage_take {behind : List α} (hsorted : behind.Pairwise fun a b => key a < key b)
    (hmem : ∀ r, r ∈ behind ↔ r ∈ rows ∧ Behind cursor (key r)) :
    IsPage key n cursor rows (behind.take n) where
  sorted := hsorted.sublist (List.take_sublist n behind)
  mem r hr := (hmem r).mp (List.mem_of_mem_take hr)
  bounded := List.length_take_le n behind
  full r hr hbehind hnot := by
    have hthere := (hmem r).mpr ⟨hr, hbehind⟩
    rw [← List.take_append_drop n behind] at hthere hsorted
    have hrest : r ∈ behind.drop n := (List.mem_append.mp hthere).resolve_left hnot
    have hlen : n < behind.length := by
      by_contra hle
      rw [List.drop_eq_nil_of_le (Nat.le_of_not_lt hle)] at hrest
      exact List.not_mem_nil hrest
    refine ⟨List.length_take_of_le (Nat.le_of_lt hlen), fun p hp => ?_⟩
    exact (List.pairwise_append.mp hsorted).2.2 p hp r hrest

end

end CScript.Lib
