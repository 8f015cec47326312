import CScript.Idempotency.Store
import Mathlib.Data.Nat.Basic

/-! Requests against one shared `IdempotencyStore`. Each request reserves a key once and,
if it got `Reserved`, completes or releases it once. The world keeps ghost records that no
code reads: what every request is doing, who wrote the entry now stored under a key, and
all completions so far. -/
namespace CScript.Idempotency
open CScript.Lib

inductive Phase where
  | fresh
  | holding (key : Key) (since : Nat)
  | finished
  deriving DecidableEq, Repr

structure World where
  store : IdempotencyStore
  clock : Nat
  phase : Nat → Phase
  writer : Key → Nat
  completions : List (Key × Nat)

def World.init : World := ⟨.new, 0, fun _ => .fresh, fun _ => 0, []⟩

inductive Call where
  | reserve (r : Nat) (key : Key) (requestHash : String) (now : Nat)
  | complete (r : Nat) (requestHash : String) (status : Nat) (body contentType : String) (now : Nat)
  | release (r : Nat)

def World.setPhase (w : World) (r : Nat) (p : Phase) : Nat → Phase := Function.update w.phase r p

/-- The answer the store gives to a `reserve` issued in this state. -/
def World.lookup (w : World) (k : Key) (requestHash : String) (now : Nat) : Lookup :=
  (w.store.reserve k requestHash now).1

/-- One call under the store's lock. Refused are a clock reading that goes back, a second
`reserve` of a request, and a `complete` or `release` without a reservation. -/
def World.step (w : World) : Call → Option World
  | .reserve r k hash now =>
      if w.phase r = .fresh ∧ w.clock ≤ now then
        let out := w.store.reserve k hash now
        some (if out.1 = .reserved then
          { store := out.2
            clock := now
            phase := w.setPhase r (.holding k now)
            writer := Function.update w.writer k r
            completions := w.completions }
        else
          { w with store := out.2, clock := now, phase := w.setPhase r .finished })
      else none
  | .complete r hash status body contentType now =>
      match w.phase r with
      | .holding k _ =>
          if w.clock ≤ now then
            some
              { store := w.store.complete k hash status body contentType now
                clock := now
                phase := w.setPhase r .finished
                writer := Function.update w.writer k r
                completions := (k, now) :: w.completions }
          else none
      | _ => none
  | .release r =>
      match w.phase r with
      | .holding k _ => some { w with store := w.store.release k, phase := w.setPhase r .finished }
      | _ => none

/-- A `Reserved` answer respects every completion of the key younger than its time to live
and every reservation of the key younger than the stale limit. -/
def ExactlyOnce (w : World) : Call → Prop
  | .reserve _ k hash now => w.lookup k hash now = .reserved →
      (∀ t, (k, t) ∈ w.completions → t + entryTtl ≤ now) ∧
        ∀ holder since, w.phase holder = .holding k since → since + inFlightStaleAfter ≤ now
  | _ => True

/-- A `release` meets nothing, its own entry, or an entry that no longer blocks the key. -/
def ReleasesOwn (w : World) : Call → Prop
  | .release r => ∀ k since, w.phase r = .holding k since → ∀ e, w.store.entries k = some e →
      w.writer k = r ∨ e.since + e.limit ≤ w.clock
  | _ => True

/-- A claim on key `k` made at `t` for `span`: it has run out, or the stored entry is at least
as young and blocks the key for at least as long. -/
def World.Protected (w : World) (k : Key) (t span : Nat) : Prop :=
  t ≤ w.clock ∧ (t + span ≤ w.clock ∨
    ∃ e, w.store.entries k = some e ∧ t ≤ e.since ∧ span ≤ e.limit)

structure Inv (w : World) : Prop where
  completed : ∀ k t, (k, t) ∈ w.completions → w.Protected k t entryTtl
  held : ∀ r k since, w.phase r = .holding k since → w.Protected k since inFlightStaleAfter
  writer_done : ∀ k e, w.store.entries k = some e → entryTtl ≤ e.limit →
    w.phase (w.writer k) = .finished
  writer_held : ∀ r k since, w.phase r = .holding k since →
    since + inFlightStaleAfter ≤ w.clock ∨
      ∀ e, w.store.entries k = some e → e.limit < entryTtl → w.writer k = r

theorem inv_init : Inv World.init where
  completed := by
    intro k t h
    cases h
  held := by
    intro r k since h
    cases h
  writer_done := by
    intro k e h
    cases h
  writer_held := by
    intro r k since h
    cases h

theorem limit_cases (e : Entry) :
    (∃ h s, e = .inFlight h s) ∧ e.limit = inFlightStaleAfter ∨
      (∃ h st b c s, e = .done h st b c s) ∧ e.limit = entryTtl := by
  cases e with
  | inFlight h s => exact .inl ⟨⟨h, s, rfl⟩, rfl⟩
  | done h st b c s => exact .inr ⟨⟨h, st, b, c, s, rfl⟩, rfl⟩

theorem stale_lt_ttl : inFlightStaleAfter < entryTtl := by decide

theorem expired_iff (e : Entry) (now : Nat) :
    e.expired now = true ↔ e.limit < now - e.since := decide_eq_true_iff

/-- A `Reserved` answer shows that every claim on the key has run out. -/
theorem protected_lapsed {w : World} {k : Key} {t span : Nat} {hash : String} {now : Nat}
    (h : w.Protected k t span) (later : w.clock ≤ now)
    (taken : w.lookup k hash now = .reserved) : t + span ≤ now := by
  obtain ⟨_, old | ⟨e, stored, young, long⟩⟩ := h
  · omega
  · obtain ⟨_, _, gone⟩ | ⟨blocked, _⟩ := w.store.reserve_cases k hash now
    · have expired := (expired_iff e now).mp (gone e stored)
      omega
    · exact absurd taken blocked

/-- The sweep of a `reserve` drops no entry that still protects a claim. -/
theorem protected_swept {w : World} {k : Key} {t span : Nat} {now : Nat}
    (h : w.Protected k t span) (later : w.clock ≤ now) :
    t + span ≤ now ∨
      ∃ e, (w.store.sweepIfDue now).entries k = some e ∧ t ≤ e.since ∧ span ≤ e.limit := by
  obtain ⟨_, old | ⟨e, stored, young, long⟩⟩ := h
  · exact .inl (by omega)
  · obtain same | ⟨_, e', stored', gone⟩ := w.store.sweepIfDue_entries now k
    · exact .inr ⟨e, by rw [same, stored], young, long⟩
    · rw [stored] at stored'
      cases stored'
      have expired := (expired_iff e now).mp gone
      exact .inl (by omega)

theorem swept_some {s : IdempotencyStore} {k : Key} {e : Entry} {now : Nat}
    (h : (s.sweepIfDue now).entries k = some e) : s.entries k = some e := by
  obtain same | ⟨gone, _⟩ := s.sweepIfDue_entries now k
  · rw [← same, h]
  · rw [gone] at h
    cases h

theorem protected_reserve {w w' : World} {k k₀ : Key} {t span : Nat} {hash : String} {now : Nat}
    (h : w.Protected k t span) (later : w.clock ≤ now)
    (store : w'.store = (w.store.reserve k₀ hash now).2) (clock : w'.clock = now) :
    w'.Protected k t span := by
  refine ⟨by have := h.1; omega, ?_⟩
  rw [store, clock]
  obtain ⟨taken, next, _⟩ | ⟨_, next, _⟩ := w.store.reserve_cases k₀ hash now
  · rw [next]
    by_cases same : k = k₀
    · subst same
      exact .inl (protected_lapsed h later taken)
    · rw [IdempotencyStore.insert_ne _ _ same]
      exact protected_swept h later
  · rw [next]
    exact protected_swept h later

theorem protected_complete {w w' : World} {k k₀ : Key} {t span : Nat} {hash : String}
    {status : Nat} {body contentType : String} {now : Nat}
    (h : w.Protected k t span) (later : w.clock ≤ now) (short : span ≤ entryTtl)
    (store : w'.store = w.store.complete k₀ hash status body contentType now)
    (clock : w'.clock = now) : w'.Protected k t span := by
  refine ⟨by have := h.1; omega, ?_⟩
  rw [store, clock]
  by_cases same : k = k₀
  · subst same
    rw [IdempotencyStore.complete_self]
    exact .inr ⟨_, rfl, Nat.le_trans h.1 later, short⟩
  · rw [IdempotencyStore.complete_ne _ _ _ _ _ _ same]
    obtain ⟨_, old | stored⟩ := h
    · exact .inl (by omega)
    · exact .inr stored

theorem protected_release_ne {w w' : World} {k k₀ : Key} {t span : Nat}
    (h : w.Protected k t span) (other : k ≠ k₀) (store : w'.store = w.store.release k₀)
    (clock : w'.clock = w.clock) : w'.Protected k t span := by
  unfold World.Protected at h ⊢
  rw [store, clock, IdempotencyStore.release_ne _ other]
  exact h

/-- Removing an entry leaves a claim protected once every entry protecting it has run out. -/
theorem protected_release_lapsed {w w' : World} {k : Key} {t span : Nat}
    (h : w.Protected k t span)
    (lapsed : ∀ e, w.store.entries k = some e → t ≤ e.since → span ≤ e.limit →
      e.since + e.limit ≤ w.clock)
    (clock : w'.clock = w.clock) : w'.Protected k t span := by
  obtain ⟨begun, old | ⟨e, stored, young, long⟩⟩ := h
  · exact ⟨by omega, .inl (by omega)⟩
  · have := lapsed e stored young long
    exact ⟨by omega, .inl (by omega)⟩

theorem World.step_reserve {w w' : World} {r : Nat} {k : Key} {hash : String} {now : Nat}
    (h : w.step (.reserve r k hash now) = some w') :
    w.phase r = .fresh ∧ w.clock ≤ now ∧ w'.clock = now ∧
      w'.store = (w.store.reserve k hash now).2 ∧ w'.completions = w.completions ∧
      (w.lookup k hash now = .reserved ∧ w'.phase = w.setPhase r (.holding k now) ∧
          w'.writer = Function.update w.writer k r ∨
        w.lookup k hash now ≠ .reserved ∧ w'.phase = w.setPhase r .finished ∧
          w'.writer = w.writer) := by
  simp only [World.step] at h
  split at h
  · rename_i guard
    cases h
    refine ⟨guard.1, guard.2, ?_⟩
    by_cases taken : w.lookup k hash now = .reserved
    · have taken' : (w.store.reserve k hash now).1 = .reserved := taken
      rw [if_pos taken']
      exact ⟨rfl, rfl, rfl, .inl ⟨taken, rfl, rfl⟩⟩
    · have blocked : ¬(w.store.reserve k hash now).1 = .reserved := taken
      rw [if_neg blocked]
      exact ⟨rfl, rfl, rfl, .inr ⟨taken, rfl, rfl⟩⟩
  · cases h

theorem World.step_complete {w w' : World} {r : Nat} {hash : String} {status : Nat}
    {body contentType : String} {now : Nat}
    (h : w.step (.complete r hash status body contentType now) = some w') :
    ∃ k since, w.phase r = .holding k since ∧ w.clock ≤ now ∧
      w' = { store := w.store.complete k hash status body contentType now
             clock := now
             phase := w.setPhase r .finished
             writer := Function.update w.writer k r
             completions := (k, now) :: w.completions } := by
  simp only [World.step] at h
  split at h
  · rename_i k since holding
    split at h
    · cases h
      exact ⟨k, since, holding, by assumption, rfl⟩
    · cases h
  · cases h

theorem World.step_release {w w' : World} {r : Nat} (h : w.step (.release r) = some w') :
    ∃ k since, w.phase r = .holding k since ∧
      w' = { w with store := w.store.release k, phase := w.setPhase r .finished } := by
  simp only [World.step] at h
  split at h
  · rename_i k since holding
    cases h
    exact ⟨k, since, holding, rfl⟩
  · cases h

theorem setPhase_self (w : World) (r : Nat) (p : Phase) : w.setPhase r p r = p :=
  Function.update_self ..

theorem setPhase_ne (w : World) {r r' : Nat} (p : Phase) (h : r' ≠ r) :
    w.setPhase r p r' = w.phase r' := Function.update_of_ne h ..

/-- A finished request that held a reservation before holds none now. -/
theorem holding_of_finish {w : World} {r r' : Nat} {k : Key} {since : Nat}
    (h : w.setPhase r .finished r' = .holding k since) :
    r' ≠ r ∧ w.phase r' = .holding k since := by
  by_cases same : r' = r
  · subst same
    rw [setPhase_self] at h
    cases h
  · rw [setPhase_ne w _ same] at h
    exact ⟨same, h⟩

theorem inv_reserve {w w' : World} {r : Nat} {k : Key} {hash : String} {now : Nat}
    (inv : Inv w) (h : w.step (.reserve r k hash now) = some w') : Inv w' := by
  obtain ⟨fresh, later, clock, store, completions, outcome⟩ := World.step_reserve h
  have stored {k' : Key} {e : Entry} (other : k' ≠ k) (he : w'.store.entries k' = some e) :
      w.store.entries k' = some e := by
    rw [store] at he
    obtain ⟨_, next, _⟩ | ⟨_, next, _⟩ := w.store.reserve_cases k hash now <;> rw [next] at he
    · rw [IdempotencyStore.insert_ne _ _ other] at he
      exact swept_some he
    · exact swept_some he
  have writerNe {k' : Key} {e : Entry} (he : w.store.entries k' = some e)
      (long : entryTtl ≤ e.limit) : w.writer k' ≠ r ∧ w.phase (w.writer k') = .finished := by
    have done := inv.writer_done k' e he long
    refine ⟨?_, done⟩
    intro same
    rw [same, fresh] at done
    cases done
  have completed : ∀ k' t, (k', t) ∈ w'.completions → w'.Protected k' t entryTtl := by
    intro k' t member
    rw [completions] at member
    exact protected_reserve (inv.completed k' t member) later store clock
  rcases outcome with ⟨taken, phase, writer⟩ | ⟨blocked, phase, writer⟩
  · obtain ⟨_, next, _⟩ | ⟨refused, _⟩ := w.store.reserve_cases k hash now
    · rw [next] at store
      have mine : w'.store.entries k = some (.inFlight hash now) := by
        rw [store, IdempotencyStore.insert_self]
      refine ⟨completed, ?_, ?_, ?_⟩
      · intro r' k' since holding
        rw [phase] at holding
        by_cases same : r' = r
        · subst same
          rw [setPhase_self] at holding
          cases holding
          exact ⟨by omega, .inr ⟨_, mine, le_rfl, le_rfl⟩⟩
        · rw [setPhase_ne w _ same] at holding
          exact protected_reserve (inv.held r' k' since holding) later (by rw [store, next]) clock
      · intro k' e he long
        have other : k' ≠ k := by
          intro same
          subst same
          rw [mine] at he
          cases he
          exact absurd long (Nat.not_le.mpr stale_lt_ttl)
        obtain ⟨notMe, done⟩ := writerNe (stored other he) long
        rw [writer, phase, Function.update_of_ne other, setPhase_ne w _ notMe]
        exact done
      · intro r' k' since holding
        rw [phase] at holding
        by_cases same : r' = r
        · subst same
          rw [setPhase_self] at holding
          cases holding
          exact .inr fun e _ _ => by rw [writer, Function.update_self]
        · rw [setPhase_ne w _ same] at holding
          by_cases other : k' = k
          · subst other
            have := protected_lapsed (inv.held r' k' since holding) later taken
            exact .inl (by omega)
          · rcases inv.writer_held r' k' since holding with old | own
            · exact .inl (by omega)
            · refine .inr ?_
              intro e he short
              rw [writer, Function.update_of_ne other]
              exact own e (stored other he) short
    · exact absurd taken refused
  · obtain ⟨reserved, _⟩ | ⟨_, next, _⟩ := w.store.reserve_cases k hash now
    · exact absurd reserved blocked
    · rw [next] at store
      have kept {k' : Key} {e : Entry} (he : w'.store.entries k' = some e) :
          w.store.entries k' = some e := by
        rw [store] at he
        exact swept_some he
      refine ⟨completed, ?_, ?_, ?_⟩
      · intro r' k' since holding
        rw [phase] at holding
        obtain ⟨_, holding⟩ := holding_of_finish holding
        exact protected_reserve (inv.held r' k' since holding) later (by rw [store, next]) clock
      · intro k' e he long
        obtain ⟨notMe, done⟩ := writerNe (kept he) long
        rw [writer, phase, setPhase_ne w _ notMe]
        exact done
      · intro r' k' since holding
        rw [phase] at holding
        obtain ⟨_, holding⟩ := holding_of_finish holding
        rcases inv.writer_held r' k' since holding with old | own
        · exact .inl (by omega)
        · refine .inr ?_
          intro e he short
          rw [writer]
          exact own e (kept he) short

theorem inv_complete {w w' : World} {r : Nat} {hash : String} {status : Nat}
    {body contentType : String} {now : Nat} (inv : Inv w)
    (h : w.step (.complete r hash status body contentType now) = some w') : Inv w' := by
  obtain ⟨k, since, holding, later, rfl⟩ := World.step_complete h
  constructor
  · intro k' t member
    rcases List.mem_cons.mp member with same | old
    · cases same
      exact ⟨le_rfl, .inr ⟨_, IdempotencyStore.complete_self .., le_rfl, le_rfl⟩⟩
    · exact protected_complete (inv.completed k' t old) later le_rfl rfl rfl
  · intro r' k' since' holding'
    obtain ⟨_, holding'⟩ := holding_of_finish holding'
    exact protected_complete (inv.held r' k' since' holding') later (Nat.le_of_lt stale_lt_ttl) rfl rfl
  · intro k' e he long
    change w.setPhase r .finished (Function.update w.writer k r k') = .finished
    by_cases same : k' = k
    · subst same
      rw [Function.update_self, setPhase_self]
    · rw [Function.update_of_ne same]
      rw [IdempotencyStore.complete_ne _ _ _ _ _ _ same] at he
      by_cases me : w.writer k' = r
      · rw [me, setPhase_self]
      · rw [setPhase_ne w _ me]
        exact inv.writer_done k' e he long
  · intro r' k' since' holding'
    obtain ⟨_, holding'⟩ := holding_of_finish holding'
    rcases inv.writer_held r' k' since' holding' with old | own
    · exact .inl (by change _ ≤ now; omega)
    · refine .inr ?_
      intro e he short
      by_cases same : k' = k
      · subst same
        rw [IdempotencyStore.complete_self] at he
        cases he
        exact absurd short (lt_irrefl _)
      · rw [IdempotencyStore.complete_ne _ _ _ _ _ _ same] at he
        change Function.update w.writer k r k' = r'
        rw [Function.update_of_ne same]
        exact own e he short

theorem inv_release {w w' : World} {r : Nat} (inv : Inv w) (own : ReleasesOwn w (.release r))
    (h : w.step (.release r) = some w') : Inv w' := by
  obtain ⟨k, since, holding, rfl⟩ := World.step_release h
  have notDone {e : Entry} (he : w.store.entries k = some e) (long : entryTtl ≤ e.limit) :
      e.since + e.limit ≤ w.clock := by
    rcases own k since holding e he with mine | lapsed
    · have done := inv.writer_done k e he long
      rw [mine, holding] at done
      cases done
    · exact lapsed
  constructor
  · intro k' t member
    by_cases same : k' = k
    · subst same
      exact protected_release_lapsed (inv.completed k' t member) (fun e he _ long => notDone he long) rfl
    · exact protected_release_ne (inv.completed k' t member) same rfl rfl
  · intro r' k' since' holding'
    obtain ⟨notMe, held⟩ := holding_of_finish holding'
    by_cases same : k' = k
    · subst same
      rcases inv.writer_held r' k' since' held with old | theirs
      · exact ⟨(inv.held r' k' since' held).1, .inl old⟩
      · refine protected_release_lapsed (inv.held r' k' since' held) ?_ rfl
        intro e he _ _
        rcases own k' since holding e he with mine | lapsed
        · rcases limit_cases e with ⟨_, short⟩ | ⟨_, long⟩
          · have := theirs e he (by rw [short]; exact stale_lt_ttl)
            exact absurd (this.symm.trans mine) notMe
          · exact notDone he (Nat.le_of_eq long.symm)
        · exact lapsed
    · exact protected_release_ne (inv.held r' k' since' held) same rfl rfl
  · intro k' e he long
    have other : k' ≠ k := by
      intro same
      subst same
      rw [IdempotencyStore.release_self] at he
      cases he
    rw [IdempotencyStore.release_ne _ other] at he
    have done := inv.writer_done k' e he long
    change w.setPhase r .finished (w.writer k') = .finished
    by_cases me : w.writer k' = r
    · rw [me, setPhase_self]
    · rw [setPhase_ne w _ me]
      exact done
  · intro r' k' since' holding'
    obtain ⟨_, holding'⟩ := holding_of_finish holding'
    rcases inv.writer_held r' k' since' holding' with old | theirs
    · exact .inl old
    · refine .inr ?_
      intro e he short
      by_cases same : k' = k
      · subst same
        rw [IdempotencyStore.release_self] at he
        cases he
      · rw [IdempotencyStore.release_ne _ same] at he
        exact theirs e he short

theorem inv_step (w : World) (c : Call) (w' : World) (inv : Inv w) (own : ReleasesOwn w c)
    (h : w.step c = some w') : Inv w' := by
  cases c with
  | reserve r k hash now => exact inv_reserve inv h
  | complete r hash status body contentType now => exact inv_complete inv h
  | release r => exact inv_release inv own h

theorem exactlyOnce_of_inv (w : World) (c : Call) (w' : World) (inv : Inv w)
    (h : w.step c = some w') : ExactlyOnce w c := by
  cases c with
  | reserve r k hash now =>
      obtain ⟨_, later, _⟩ := World.step_reserve h
      intro taken
      exact ⟨fun t member => protected_lapsed (inv.completed k t member) later taken,
        fun holder since holding => protected_lapsed (inv.held holder k since holding) later taken⟩
  | complete r hash status body contentType now => trivial
  | release r => trivial

/-- Where the stored entries come from, in any run: a reservation still held, or a completion. -/
structure Provenance (w : World) : Prop where
  inFlight : ∀ k h s, w.store.entries k = some (.inFlight h s) →
    w.phase (w.writer k) = .holding k s
  done : ∀ k h st b c s, w.store.entries k = some (.done h st b c s) → (k, s) ∈ w.completions

theorem provenance_init : Provenance World.init where
  inFlight := by
    intro k h s he
    cases he
  done := by
    intro k h st b c s he
    cases he

theorem provenance_reserve {w w' : World} {r : Nat} {k : Key} {hash : String} {now : Nat}
    (inv : Provenance w) (h : w.step (.reserve r k hash now) = some w') : Provenance w' := by
  obtain ⟨fresh, _, _, store, completions, outcome⟩ := World.step_reserve h
  have notMe {k' : Key} {h' : String} {s : Nat}
      (he : w.store.entries k' = some (.inFlight h' s)) : w.writer k' ≠ r := by
    intro same
    have holding := inv.inFlight k' h' s he
    rw [same, fresh] at holding
    cases holding
  rcases outcome with ⟨taken, phase, writer⟩ | ⟨blocked, phase, writer⟩
  · obtain ⟨_, next, _⟩ | ⟨refused, _⟩ := w.store.reserve_cases k hash now
    · rw [next] at store
      constructor
      · intro k' h' s he
        rw [store] at he
        rw [phase, writer]
        by_cases same : k' = k
        · subst same
          rw [IdempotencyStore.insert_self] at he
          cases he
          rw [Function.update_self, setPhase_self]
        · rw [IdempotencyStore.insert_ne _ _ same] at he
          have stored := swept_some he
          rw [Function.update_of_ne same, setPhase_ne w _ (notMe stored)]
          exact inv.inFlight k' h' s stored
      · intro k' h' st b c s he
        rw [store] at he
        rw [completions]
        by_cases same : k' = k
        · subst same
          rw [IdempotencyStore.insert_self] at he
          cases he
        · rw [IdempotencyStore.insert_ne _ _ same] at he
          exact inv.done k' h' st b c s (swept_some he)
    · exact absurd taken refused
  · obtain ⟨reserved, _⟩ | ⟨_, next, _⟩ := w.store.reserve_cases k hash now
    · exact absurd reserved blocked
    · rw [next] at store
      constructor
      · intro k' h' s he
        rw [store] at he
        have stored := swept_some he
        rw [phase, writer, setPhase_ne w _ (notMe stored)]
        exact inv.inFlight k' h' s stored
      · intro k' h' st b c s he
        rw [store] at he
        rw [completions]
        exact inv.done k' h' st b c s (swept_some he)

theorem provenance_complete {w w' : World} {r : Nat} {hash : String} {status : Nat}
    {body contentType : String} {now : Nat} (inv : Provenance w)
    (h : w.step (.complete r hash status body contentType now) = some w') : Provenance w' := by
  obtain ⟨k, since, holding, _, rfl⟩ := World.step_complete h
  constructor
  · intro k' h' s he
    by_cases same : k' = k
    · subst same
      rw [IdempotencyStore.complete_self] at he
      cases he
    · rw [IdempotencyStore.complete_ne _ _ _ _ _ _ same] at he
      have theirs := inv.inFlight k' h' s he
      change w.setPhase r .finished (Function.update w.writer k r k') = _
      rw [Function.update_of_ne same, setPhase_ne, theirs]
      intro me
      rw [me, holding] at theirs
      cases theirs
      exact same rfl
  · intro k' h' st b c s he
    by_cases same : k' = k
    · subst same
      rw [IdempotencyStore.complete_self] at he
      cases he
      exact List.mem_cons_self
    · rw [IdempotencyStore.complete_ne _ _ _ _ _ _ same] at he
      exact List.mem_cons_of_mem _ (inv.done k' h' st b c s he)

theorem provenance_release {w w' : World} {r : Nat} (inv : Provenance w)
    (h : w.step (.release r) = some w') : Provenance w' := by
  obtain ⟨k, since, holding, rfl⟩ := World.step_release h
  have other {k' : Key} {e : Entry} (he : (w.store.release k).entries k' = some e) :
      k' ≠ k ∧ w.store.entries k' = some e := by
    by_cases same : k' = k
    · subst same
      rw [IdempotencyStore.release_self] at he
      cases he
    · rw [IdempotencyStore.release_ne _ same] at he
      exact ⟨same, he⟩
  constructor
  · intro k' h' s he
    obtain ⟨ne, he⟩ := other he
    have theirs := inv.inFlight k' h' s he
    change w.setPhase r .finished (w.writer k') = _
    rw [setPhase_ne, theirs]
    intro me
    rw [me, holding] at theirs
    cases theirs
    exact ne rfl
  · intro k' h' st b c s he
    exact inv.done k' h' st b c s (other he).2

theorem provenance_step (w : World) (c : Call) (w' : World) (inv : Provenance w)
    (h : w.step c = some w') : Provenance w' := by
  cases c with
  | reserve r k hash now => exact provenance_reserve inv h
  | complete r hash status body contentType now => exact provenance_complete inv h
  | release r => exact provenance_release inv h

/-- All requests from some number on have not started. -/
def World.Unstarted (w : World) : Prop := ∃ n, ∀ r, n ≤ r → w.phase r = .fresh

theorem unstarted_step (w : World) (c : Call) (w' : World) (h : w.Unstarted)
    (hs : w.step c = some w') : w'.Unstarted := by
  obtain ⟨n, fresh⟩ := h
  have later {r : Nat} {p : Phase} (phase : w'.phase = w.setPhase r p) : w'.Unstarted := by
    refine ⟨n + r + 1, ?_⟩
    intro r' hr
    rw [phase, setPhase_ne w _ (by omega)]
    exact fresh r' (by omega)
  cases c with
  | reserve r k hash now =>
      obtain ⟨_, _, _, _, _, ⟨_, phase, _⟩ | ⟨_, phase, _⟩⟩ := World.step_reserve hs
      · exact later phase
      · exact later phase
  | complete r hash status body contentType now =>
      obtain ⟨_, _, _, _, same⟩ := World.step_complete hs
      exact later (r := r) (p := .finished) (by rw [same])
  | release r =>
      obtain ⟨_, _, _, same⟩ := World.step_release hs
      exact later (r := r) (p := .finished) (by rw [same])

/-- After a release of an entry that is not the caller's and still blocks the key, the next
request to reserve it is let through too early. -/
theorem foreign_release_breaks {w w' : World} {r r' : Nat} (inv : Provenance w)
    (h : w.step (.release r) = some w') (foreign : ¬ ReleasesOwn w (.release r))
    (fresh : w'.phase r' = .fresh) :
    ∃ c, (w'.step c).isSome ∧ ¬ ExactlyOnce w' c := by
  obtain ⟨k₀, since₀, holding, rfl⟩ := World.step_release h
  simp only [ReleasesOwn, not_forall, not_or] at foreign
  obtain ⟨k, since, holding', e, stored, notMine, alive⟩ := foreign
  rw [holding] at holding'
  cases holding'
  refine ⟨.reserve r' k₀ "" w.clock, ?_, ?_⟩
  · simp only [World.step]
    rw [if_pos ⟨fresh, Nat.le_refl _⟩]
    rfl
  · intro once
    have taken : ((w.store.release k₀).reserve k₀ "" w.clock).1 = .reserved := by
      obtain ⟨reserved, _⟩ | ⟨_, _, e', he', _⟩ :=
        (w.store.release k₀).reserve_cases k₀ "" w.clock
      · exact reserved
      · rw [IdempotencyStore.release_self] at he'
        cases he'
    obtain ⟨completed, held⟩ := once taken
    cases e with
    | inFlight hash s =>
        refine alive (held (w.writer k₀) s ?_)
        change w.setPhase r .finished (w.writer k₀) = _
        rw [setPhase_ne w _ notMine]
        exact inv.inFlight k₀ hash s stored
    | done hash st b c s => exact alive (completed s (inv.done k₀ hash st b c s stored))

/-- In every state of a run each next `reserve` respects exactly-once if and only if every
release of the run meets its own entry, or one that no longer blocks the key. A `complete`
that comes late needs no condition. -/
theorem exactly_once_iff_releases_own (calls : List Call) :
    (∀ pre w, pre <+: calls → runFrom World.step .init pre = some w →
        ∀ c, (w.step c).isSome → ExactlyOnce w c) ↔
      AllSteps World.step ReleasesOwn .init calls := by
  constructor
  · intro always
    rw [allSteps_iff_runs]
    intro pre c w w' hp run hs
    cases c with
    | reserve r k hash now => trivial
    | complete r hash status body contentType now => trivial
    | release r =>
        by_contra foreign
        have after := runFrom_snoc run hs
        have inv := invariant_of_any_run provenance_step provenance_init run
        obtain ⟨n, fresh⟩ := invariant_of_any_run unstarted_step ⟨0, fun _ _ => rfl⟩ after
        obtain ⟨c, accepted, broken⟩ :=
          foreign_release_breaks inv hs foreign (fresh n (Nat.le_refl n))
        exact broken (always _ w' hp after c accepted)
  · intro own pre w hp run c accepted
    have inv := invariant_of_run inv_step inv_init (AllSteps.initial own hp) run
    obtain ⟨w', h⟩ := Option.isSome_iff_exists.mp accepted
    exact exactlyOnce_of_inv w c w' inv h

def orderKey : Key := ("Orders", "create", "key-1")

/-- Request 0 is reclaimed as stale by request 1, then releases the reservation of request 1. -/
def lateRelease : List Call :=
  [.reserve 0 orderKey "hash-a" 0, .reserve 1 orderKey "hash-a" (secs 121), .release 0,
    .reserve 2 orderKey "hash-a" (secs 123)]

theorem late_release_not_exactly_once :
    ¬ ∀ calls pre w, pre <+: calls → runFrom World.step .init pre = some w →
      ∀ c, (w.step c).isSome → ExactlyOnce w c := by
  intro always
  have run : (runFrom World.step .init (lateRelease.take 3)).isSome := by decide
  obtain ⟨w, run⟩ := Option.isSome_iff_exists.mp run
  have last := always lateRelease (lateRelease.take 3) w (List.take_prefix 3 _) run
    (.reserve 2 orderKey "hash-a" (secs 123))
  cases run
  have held := (last rfl rfl).2 1 (secs 121) rfl
  revert held
  decide

end CScript.Idempotency
