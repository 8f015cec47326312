import CScript.Server.Handler

/-! Whoever reserved a key settles it once before the response, and a recorded response goes
back to the execution it was recorded for: when this holds of every run of `handle_request`. -/
namespace CScript.Server
open CScript.Lib CScript.Idempotency

variable {Caller : Type} {app : App Caller} {s s' : Site Caller}

/-- How often a request at this stage has reserved a key and settled it. -/
def Stage.Balanced (key : Key) (reserved settled : Nat) : Stage → Prop
  | .fresh => reserved = 0 ∧ settled = 0
  | .admitted t | .running t => reserved = (if t.held = some key then 1 else 0) ∧ settled = 0
  | .settled _ _ | .answered => settled = reserved ∧ reserved ≤ 1

def BalancedAt (s : Site Caller) (r : Nat) : Prop := ∀ key,
  (s.stage r).Balanced key (s.reservations.count (r, key)) (s.settlements.count (r, key))

theorem settledOnce_of_balanced (h : ∀ r, BalancedAt s r) : SettledOnce s := by
  intro r answered key
  simpa only [BalancedAt, answered, Stage.Balanced] using h r key

theorem count_cons_other {r r' : Nat} (key key' : Key) (l : List (Nat × Key)) (other : r' ≠ r) :
    List.count (r', key') ((r, key) :: l) = List.count (r', key') l := by
  refine List.count_cons_of_ne ?_
  intro same
  exact other (congrArg Prod.fst same).symm

/-- The accounts of the other requests stay as they are, whatever one request pushes. -/
theorem balancedAt_other {r r' : Nat} {stage : Stage} (other : r' ≠ r) (h : BalancedAt s r')
    (hstage : s'.stage = Function.update s.stage r stage)
    (hreserved : s'.reservations = s.reservations ∨
      ∃ key, s'.reservations = (r, key) :: s.reservations)
    (hsettled : s'.settlements = s.settlements ∨
      ∃ key, s'.settlements = (r, key) :: s.settlements) : BalancedAt s' r' := by
  intro key
  have hreserved : s'.reservations.count (r', key) = s.reservations.count (r', key) := by
    rcases hreserved with same | ⟨k, pushed⟩
    · rw [same]
    · rw [pushed, count_cons_other k key _ other]
  have hsettled : s'.settlements.count (r', key) = s.settlements.count (r', key) := by
    rcases hsettled with same | ⟨k, pushed⟩
    · rw [same]
    · rw [pushed, count_cons_other k key _ other]
  rw [hreserved, hsettled, hstage, Function.update_of_ne other]
  exact h key

/-- A step that only moves one request to another stage. -/
theorem balanced_setStage {r : Nat} {stage : Stage} (h : ∀ r, BalancedAt s r)
    (hstage : s'.stage = Function.update s.stage r stage)
    (hreserved : s'.reservations = s.reservations) (hsettled : s'.settlements = s.settlements)
    (mine : ∀ key, stage.Balanced key (s.reservations.count (r, key))
      (s.settlements.count (r, key))) : ∀ r, BalancedAt s' r := by
  intro r'
  by_cases same : r' = r
  · intro key
    rw [same, hstage, Function.update_self, hreserved, hsettled]
    exact mine key
  · exact balancedAt_other same (h r') hstage (.inl hreserved) (.inl hsettled)

theorem balanced_reserve {r now : Nat} {req : Request} {d : Dispatch} {key : Key}
    (h : ∀ r, BalancedAt s r) (fresh : s.stage r = .fresh) :
    ∀ r', BalancedAt (app.reserve s r req d key now) r' := by
  have noneYet : ∀ k, s.reservations.count (r, k) = 0 ∧ s.settlements.count (r, k) = 0 := by
    intro k
    simpa only [fresh, Stage.Balanced] using h r k
  obtain ⟨swept, rfl, reserved | blocked | ⟨replayed, -⟩⟩ := app.reserve_cases s r req d key now
  · rw [reserved]
    intro r'
    by_cases same : r' = r
    · intro k
      obtain ⟨hr, hs⟩ := noneYet k
      simp only [same, Site.setStage, Function.update_self, Stage.Balanced, hs, List.count_cons, hr]
      by_cases hk : key = k <;> simp [hk]
    · exact balancedAt_other same (h r') rfl (.inr ⟨key, rfl⟩) (.inl rfl)
  · rw [blocked]
    refine balanced_setStage h rfl rfl rfl fun k => ?_
    obtain ⟨hr, hs⟩ := noneYet k
    exact ⟨hs.trans hr.symm, by omega⟩
  · rw [replayed]
    refine balanced_setStage h rfl rfl rfl fun k => ?_
    obtain ⟨hr, hs⟩ := noneYet k
    exact ⟨hs.trans hr.symm, by omega⟩

theorem balanced_settle {r now : Nat} {t : Thread} {key : Key} {response : Response}
    (h : ∀ r, BalancedAt s r) (running : s.stage r = .running t) (held : t.held = some key) :
    ∀ r', BalancedAt (app.settle s r t key response now) r' := by
  have hstage : (app.settle s r t key response now).stage =
      Function.update s.stage r (.settled t response) := by
    unfold App.settle
    split <;> rfl
  have hreserved : (app.settle s r t key response now).reservations = s.reservations := by
    unfold App.settle
    split <;> rfl
  have hsettled : (app.settle s r t key response now).settlements = (r, key) :: s.settlements := by
    unfold App.settle
    split <;> rfl
  intro r'
  by_cases same : r' = r
  · intro k
    have mine := h r k
    simp only [running, Stage.Balanced, held] at mine
    rw [same, hstage, Function.update_self, hreserved, hsettled, List.count_cons, mine.1, mine.2]
    by_cases hk : key = k <;> simp [Stage.Balanced, hk]
  · exact balancedAt_other same (h r') hstage (.inl hreserved) (.inr ⟨key, hsettled⟩)

theorem balanced_step (l : Label) (h : ∀ r, BalancedAt s r) (hmiss : app.MissesWhileHolding s l)
    (hstep : app.step s l = some s') : ∀ r, BalancedAt s' r := by
  cases l with
  | receive r req refused now =>
      obtain ⟨fresh, rfl | ⟨d, rfl⟩ | ⟨d, key, -, -, rfl⟩⟩ := step_receive hstep
      · refine balanced_setStage h rfl rfl rfl fun k => ?_
        have mine := h r k
        simp only [fresh, Stage.Balanced] at mine
        exact ⟨mine.2.trans mine.1.symm, by omega⟩
      · refine balanced_setStage h rfl rfl rfl fun k => ?_
        have mine := h r k
        simpa [fresh, Stage.Balanced] using mine
      · exact balanced_reserve h fresh
  | consult r distributed now =>
      obtain ⟨t, cache, admitted, -, ⟨-, rfl⟩ | ⟨hit, rfl⟩⟩ := step_consult hstep
      · refine balanced_setStage h rfl rfl rfl fun k => ?_
        have mine := h r k
        simpa only [admitted, Stage.Balanced] using mine
      · refine balanced_setStage h rfl rfl rfl fun k => ?_
        have mine := h r k
        cases held : t.held with
        | some key => simp [hmiss t key admitted held] at hit
        | none =>
            simp only [admitted, Stage.Balanced, held, reduceCtorEq, if_false] at mine
            exact ⟨mine.2.trans mine.1.symm, by omega⟩
  | finish r response now =>
      obtain ⟨t, running, ⟨held, rfl⟩ | ⟨key, held, rfl⟩⟩ := step_finish hstep
      · refine balanced_setStage h rfl rfl rfl fun k => ?_
        have mine := h r k
        simp only [running, Stage.Balanced, held, reduceCtorEq, if_false] at mine
        exact ⟨mine.2.trans mine.1.symm, by omega⟩
      · exact balanced_settle h running held
  | respond r wroteDistributed now =>
      obtain ⟨t, response, cache, settled, rfl⟩ := step_respond hstep
      refine balanced_setStage h rfl rfl rfl fun k => ?_
      have mine := h r k
      simpa only [settled, Stage.Balanced] using mine
  | clear start =>
      cases hstep
      exact h

theorem balanced_start : ∀ r, BalancedAt (Site.start : Site Caller) r :=
  fun _ _ => ⟨rfl, rfl⟩

/-- A cache hit leaves the reservation of the request it answers behind for good. -/
theorem not_settledOnce_of_hit {l : Label} (h : ∀ r, BalancedAt s r)
    (hstep : app.step s l = some s') (once : SettledOnce s') : app.MissesWhileHolding s l := by
  cases l with
  | consult r distributed now =>
      intro t key admitted held
      obtain ⟨t', cache, admitted', -, ⟨miss, -⟩ | ⟨-, rfl⟩⟩ := step_consult hstep
      · cases admitted.symm.trans admitted'
        exact miss
      · have mine := h r key
        simp only [admitted, Stage.Balanced, held, if_true] at mine
        obtain ⟨same, -⟩ := once r (Function.update_self ..) key
        change s.settlements.count (r, key) = s.reservations.count (r, key) at same
        omega
  | _ => trivial

/-- A stored response belongs to the last execution recorded under its key. -/
def Provenance (s : Site Caller) : Prop :=
  ∀ key hash st b c t, s.store.entries key = some (.done hash st b c t) →
    ∃ e, s.recorded.find? (fun c => c.key = key) = some ⟨key, hash, t, e⟩ ∧ s.origin key = some e

theorem provenance_of_store (h : Provenance s) (hrecorded : s'.recorded = s.recorded)
    (horigin : s'.origin = s.origin)
    (hstore : ∀ key hash st b c t, s'.store.entries key = some (.done hash st b c t) →
      s.store.entries key = some (.done hash st b c t)) : Provenance s' := by
  intro key hash st b c t stored
  rw [hrecorded, horigin]
  exact h key hash st b c t (hstore key hash st b c t stored)

theorem provenance_settle {r now : Nat} {t : Thread} {key : Key} {response : Response}
    (h : Provenance s) : Provenance (app.settle s r t key response now) := by
  intro k hash st b c t' stored
  unfold App.settle at stored ⊢
  split at stored
  · next ok =>
      rw [if_pos ok]
      by_cases same : k = key
      · subst same
        rw [IdempotencyStore.complete_self] at stored
        cases stored
        exact ⟨_, by simp, Function.update_self ..⟩
      · rw [IdempotencyStore.complete_ne _ _ _ _ _ _ same] at stored
        obtain ⟨e, found, origin⟩ := h k hash st b c t' stored
        refine ⟨e, ?_, (Function.update_of_ne same ..).trans origin⟩
        rw [List.find?_cons_of_neg (by simpa using Ne.symm same)]
        exact found
  · next failed =>
      rw [if_neg failed]
      by_cases same : k = key
      · subst same
        rw [IdempotencyStore.release_self] at stored
        cases stored
      · rw [IdempotencyStore.release_ne _ same] at stored
        exact h k hash st b c t' stored

theorem provenance_step (l : Label) (h : Provenance s) (hstep : app.step s l = some s') :
    Provenance s' := by
  cases l with
  | receive r req refused now =>
      obtain ⟨-, rfl | ⟨d, rfl⟩ | ⟨d, key, -, -, rfl⟩⟩ := step_receive hstep
      · exact h
      · exact h
      · obtain ⟨swept, rfl, reserved | blocked | ⟨replayed, -⟩⟩ :=
          app.reserve_cases s r req d key now
        · rw [reserved]
          exact provenance_of_store h rfl rfl fun _ _ _ _ _ _ => done_of_reserve
        · rw [blocked]
          exact provenance_of_store h rfl rfl fun _ _ _ _ _ _ => done_of_reserve
        · rw [replayed]
          exact provenance_of_store h rfl rfl fun _ _ _ _ _ _ => done_of_reserve
  | consult r distributed now =>
      obtain ⟨t, cache, -, -, ⟨-, rfl⟩ | ⟨-, rfl⟩⟩ := step_consult hstep
      · exact h
      · exact h
  | finish r response now =>
      obtain ⟨t, -, ⟨-, rfl⟩ | ⟨key, -, rfl⟩⟩ := step_finish hstep
      · exact h
      · exact provenance_settle h
  | respond r wroteDistributed now =>
      obtain ⟨t, response, cache, -, rfl⟩ := step_respond hstep
      exact h
  | clear start =>
      cases hstep
      exact h

theorem provenance_start : Provenance (Site.start : Site Caller) := by
  intro key hash st b c t stored
  cases stored

theorem faithful_step (l : Label) (h : Provenance s ∧ FaithfulReplays s)
    (hrepeat : app.RepeatsItself s l) (hstep : app.step s l = some s') :
    Provenance s' ∧ FaithfulReplays s' := by
  refine ⟨provenance_step l h.1 hstep, ?_⟩
  obtain ⟨provenance, faithful⟩ := h
  cases l with
  | receive r req refused now =>
      obtain ⟨-, rfl | ⟨d, rfl⟩ | ⟨d, key, resolved, reserves, rfl⟩⟩ := step_receive hstep
      · exact faithful
      · exact faithful
      · obtain ⟨swept, rfl, reserved | blocked | ⟨replayed, st, b, c, t, stored, young⟩⟩ :=
          app.reserve_cases s r req d key now
        · rw [reserved]
          exact faithful
        · rw [blocked]
          exact faithful
        · rw [replayed]
          obtain ⟨e, found, origin⟩ := provenance key _ st b c t stored
          have same : e = app.execution req d :=
            hrepeat d key resolved reserves _ found rfl young
          rintro p hp
          rcases List.mem_cons.1 hp with rfl | old
          · rw [origin, same]
          · exact faithful p old
  | consult r distributed now =>
      obtain ⟨t, cache, -, -, ⟨-, rfl⟩ | ⟨-, rfl⟩⟩ := step_consult hstep
      · exact faithful
      · exact faithful
  | finish r response now =>
      obtain ⟨t, -, ⟨-, rfl⟩ | ⟨key, -, rfl⟩⟩ := step_finish hstep
      · exact faithful
      · have kept : (app.settle s r t key response now).replays = s.replays := by
          unfold App.settle
          split <;> rfl
        unfold FaithfulReplays
        rw [kept]
        exact faithful
  | respond r wroteDistributed now =>
      obtain ⟨t, response, cache, -, rfl⟩ := step_respond hstep
      exact faithful
  | clear start =>
      cases hstep
      exact faithful

/-- `charge` takes its argument from the path, and `rates` is cached for a minute. -/
def payments : Program :=
  [⟨"Payments",
    [⟨"charge", [("id", .string)], some ⟨[.literal "pay", .param "id"]⟩, true, none⟩,
      ⟨"rates", [], none, true, some (secs 60)⟩]⟩]

/-- None of the requests below has a body, and `rates` has no arguments. -/
def paymentsApp : App (Option String) where
  program := payments
  fromStr := fun _ => .error "EOF while parsing a value at line 1 column 0"
  toText := fun _ => "{}"
  hashRequestBody := fun _ => "e3b0c44298fc1c149afbf4c8996fb92427ae41e4649b934ca495991b7852b855"
  identity := id

def emptyOk : Response := ⟨200, "{}", "application/json"⟩

/-- A charge that succeeds, and a second request with the key of the first. -/
def chargeTwice (path token : String) : List Label :=
  [.receive 0 ⟨"/pay/1", "", some "key-1", some "alice"⟩ false 0, .consult 0 none 0,
    .finish 0 emptyOk 1, .respond 0 false 1, .receive 1 ⟨path, "", some "key-1", some token⟩ false 2]

/-- A call of `rates` that fills the cache, and one with a key that is answered from it. -/
def ratesTwice : List Label :=
  [.receive 0 ⟨"/Payments/rates", "", none, some "alice"⟩ false 0, .consult 0 none 0,
    .finish 0 emptyOk 1, .respond 0 false 1,
    .receive 1 ⟨"/Payments/rates", "", some "key-1", some "alice"⟩ false 2, .consult 1 none 2]

end CScript.Server
