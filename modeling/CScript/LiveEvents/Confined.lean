import CScript.LiveEvents.AlikeStates
import CScript.Lib.Run

/-!
# Hidden fields stay hidden

Two runs that make the same changes but for the values of hidden fields give every subscriber
the same JSON, and no hidden field or column is a key of it.
-/

namespace CScript.LiveEvents

open Lib Storage

namespace Deployment

variable {w : Deployment} {s t : State}

/-! ## Runs -/

/-- No subscriber yet, no notification under way and no transaction. -/
def start (tables : String → List StoredRow) : State := ⟨tables, fun _ => .start, none⟩

/-- One step of both runs. -/
def stepBoth (w : Deployment) (p : State × State) (e : Label × Label) : Option (State × State) :=
  match w.step p.1 e.1, w.step p.2 e.2 with
  | some s, some t => some (s, t)
  | _, _ => none

/-- Every subscriber is given the same in both states, and no hidden field or column is a key
of a row that it is given. -/
def Confined (w : Deployment) (s t : State) : Prop :=
  ∀ i, (s.processes i).feeds = (t.processes i).feeds ∧
    ∀ f ∈ (s.processes i).feeds, ∀ c, w.collection f.collection = some c →
      ∀ j ∈ f.delivered, Clean c j

/-- Hidden fields never reach a live subscriber. -/
def KeepsHidden (w : Deployment) : Prop :=
  ∀ tables tables' ls ms s t, w.AlikeTables tables tables' → List.Forall₂ w.SameChange ls ms →
    runFrom w.step (start tables) ls = some s → runFrom w.step (start tables') ms = some t →
    w.Confined s t

theorem Alike.confined (h : w.Alike s t) : w.Confined s t :=
  fun i => ⟨(h.processes i).feeds, (h.processes i).clean⟩

theorem alike_start {tables tables' : String → List StoredRow} (h : w.AlikeTables tables tables') :
    w.Alike (start tables) (start tables') :=
  ⟨h, fun _ => ⟨rfl, (fun _ hf => nomatch hf), .nil, .nil, rfl⟩, .none⟩

theorem run_alike {ls ms : List Label} (hsame : List.Forall₂ w.SameChange ls ms) {s t s' t' : State}
    (h : w.Alike s t)
    (hu : AllSteps w.stepBoth (fun p e => w.Unmoved p.1 p.2 e.1 e.2) (s, t) (ls.zip ms))
    (hs : runFrom w.step s ls = some s') (ht : runFrom w.step t ms = some t') : w.Alike s' t' := by
  induction hsame generalizing s t with
  | nil =>
      cases hs
      cases ht
      exact h
  | @cons l m ls ms hlm _ ih =>
      cases hls : w.step s l with
      | none => simp only [runFrom, hls, reduceCtorEq] at hs
      | some u =>
          cases hmt : w.step t m with
          | none => simp only [runFrom, hmt, reduceCtorEq] at ht
          | some v =>
              have hboth : w.stepBoth (s, t) (l, m) = some (u, v) := by
                simp only [stepBoth, hls, hmt]
              rw [List.zip_cons_cons, allSteps_cons_some hboth] at hu
              rw [runFrom_cons_some hls] at hs
              rw [runFrom_cons_some hmt] at ht
              exact ih (step_alike h hlm hu.1 hls hmt) hu.2 hs ht

/-- Along two runs in none of whose steps a hidden value or column decides anything, hidden
fields stay hidden in every state. -/
theorem hidden_fields_confined {tables tables' : String → List StoredRow} {ls ms : List Label}
    {s t : State} (hstart : w.AlikeTables tables tables')
    (hsame : List.Forall₂ w.SameChange ls ms)
    (hu : AllSteps w.stepBoth (fun p e => w.Unmoved p.1 p.2 e.1 e.2)
      (start tables, start tables') (ls.zip ms))
    (hs : runFrom w.step (start tables) ls = some s)
    (ht : runFrom w.step (start tables') ms = some t) : w.Confined s t :=
  (run_alike hsame (alike_start hstart) hu hs ht).confined

end Deployment

/-! ## A row that another system deletes -/

/-- `type User = { id: Int, name: String, @hidden @column("pw_hash") passwordHash: String }`. -/
def userFields : List Field :=
  [⟨"id", false, .named "Int" [], []⟩, ⟨"name", false, .named "String" [], []⟩,
    ⟨"passwordHash", false, .named "String" [], [.hidden, .column "pw_hash"]⟩]

def usersChecker : Checker where
  types := [⟨"User", [], .struct userFields, []⟩]
  enums := []
  enums_nodup := List.nodup_nil

def users : Collection usersChecker where
  name := "users"
  typeName := "User"
  declared := userFields
  fields := [⟨"id", false, .int⟩, ⟨"name", false, .string⟩, ⟨"passwordHash", false, .string⟩]
  isDeclared := rfl
  isResolved := rfl
  columnsOnce := by decide
  idDeclared := by decide
  idVisible := by decide

/-- The JSON of PostgreSQL for the cells of such a row. -/
def plainCellJson : Cell → Json
  | .int n => .number (.ofI64 n)
  | .text s => .string s
  | _ => .null

/-- The payloads of these rows are some hundred bytes long. -/
def usersDeployment : Deployment where
  regex := fun _ => none
  checker := usersChecker
  debugCell := fun _ => ""
  backend := memory
  cipher := none
  collections := [users]
  hasTrigger := fun name => name == "users"
  before := fun _ _ => false
  cellJson := plainCellJson
  notifyLength := fun _ _ => 150
  triggerLength := fun _ _ => 170

/-- The row of Ana, with the hash of her password. -/
def anaRow (hash : String) : StoredRow :=
  [("id", .int ⟨1, inRange_one⟩), ("name", .text "Ana"), ("pw_hash", .text hash)]

def anaTables (hash : String) (name : String) : List StoredRow :=
  if name = "users" then [anaRow hash] else []

/-- No request stands behind the step. -/
def noClaims (_ : String) : Except RuntimeError String := .error (err "sin sesión")

namespace Deployment

/-- Two processes watch the collection while one of them writes Ana's row. -/
def anaIsWritten (hash : String) : List Label :=
  [.subscribe 0 "users", .subscribe 1 "users", .write 0 "users" noClaims (.put (anaRow hash)) .ok,
    .receive 1 noClaims]

theorem alike_ana (hash hash' : String) : AlikeRow users (anaRow hash) (anaRow hash') := by
  have hhidden : "pw_hash" ∈ users.hiddenColumns := by decide
  exact .cons ⟨rfl, .inr rfl⟩ (.cons ⟨rfl, .inr rfl⟩ (.cons ⟨rfl, .inl hhidden⟩ .nil))

theorem readAlike_ana (hash hash' : String) :
    usersDeployment.ReadAlike users noClaims (anaRow hash) (anaRow hash') where
  deleted := rfl
  visible := by
    intro visible h
    cases h
    rfl
  decodes := rfl

theorem users_only {name : String} {c : Collection usersDeployment.checker}
    (h : usersDeployment.collection name = some c) : c = users :=
  List.mem_singleton.mp (List.mem_of_find?_eq_some h)

theorem apart_users (p : Process) (name : String) : usersDeployment.ApartFor p name := by
  intro _ c hc
  rw [users_only hc]
  unfold NamesApart
  decide

theorem ana_written_confined : ∃ s t,
    runFrom usersDeployment.step (start fun _ => []) (anaIsWritten "1a2b") = some s ∧
      runFrom usersDeployment.step (start fun _ => []) (anaIsWritten "3c4d") = some t ∧
      usersDeployment.Confined s t := by
  have hsame : List.Forall₂ usersDeployment.SameChange (anaIsWritten "1a2b") (anaIsWritten "3c4d") := by
    refine .cons (.refl _) (.cons (.refl _) (.cons (.write ?_) (.cons (.refl _) .nil)))
    intro c hc
    rw [users_only hc]
    exact alike_ana _ _
  have hunmoved : AllSteps usersDeployment.stepBoth
      (fun p e => usersDeployment.Unmoved p.1 p.2 e.1 e.2) (start fun _ => [], start fun _ => [])
      ((anaIsWritten "1a2b").zip (anaIsWritten "3c4d")) := by
    refine ⟨trivial, trivial, ?_, ?_, trivial⟩
    · intro c hc
      rw [users_only hc]
      refine ⟨⟨readAlike_ana _ _, fun id _ => .nil⟩, fun _ => ⟨apart_users _ _, ?_⟩⟩
      intro row row' _ _
      exact Iff.rfl
    · intro n rest h
      cases h
      exact fun _ => apart_users _ _
  have hstart : usersDeployment.AlikeTables (fun _ => []) (fun _ => []) := fun _ _ _ => .nil
  exact ⟨_, _, rfl, rfl, hidden_fields_confined hstart hsame hunmoved rfl rfl⟩

/-- Another system deletes Ana's row while a process watches. -/
def anaIsDeleted : List Label :=
  [.subscribe 0 "users", .external "users" (.delete (.int ⟨1, inRange_one⟩) ⟨0, inRange_zero⟩),
    .receive 0 noClaims]

/-- The hash is delivered under the name of its column. -/
theorem deleted_row_leaks_hash : ¬ usersDeployment.KeepsHidden := by
  intro h
  have htables : usersDeployment.AlikeTables (anaTables "1a2b") (anaTables "3c4d") := by
    intro name c hc
    rw [users_only hc]
    unfold anaTables
    split
    · exact .cons (alike_ana _ _) .nil
    · exact .nil
  have hsame : List.Forall₂ usersDeployment.SameChange anaIsDeleted anaIsDeleted :=
    .cons (.refl _) (.cons (.refl _) (.cons (.refl _) .nil))
  have hconfined := h _ _ anaIsDeleted anaIsDeleted _ _ htables hsame rfl rfl
  have hclean := (hconfined 0).2 _ List.mem_cons_self users rfl _ List.mem_cons_self
    "passwordHash" (by decide)
  have husers : usersDeployment.collection "users" = some users := rfl
  obtain ⟨m, hm, hkeys⟩ := stripHiddenRow_object husers
    [("id", .number (.ofI64 ⟨1, by decide⟩)), ("name", .string "Ana"),
      ("pw_hash", .string "1a2b")]
  apply hclean.2
  refine ⟨m, hm, ?_⟩
  rw [hkeys]
  decide

end Deployment

end CScript.LiveEvents
