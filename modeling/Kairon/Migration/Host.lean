import Kairon.Infra.Play
import Kairon.Migration.Server

/-!
# The server in its world

The session store, the per-session locks and whatever state the driver's services have. Calls of
the server run concurrently: each call is one thread, and threads take turns call by call.
-/

namespace Kairon.Migration

open Infra List Function

structure SessionStore where
  sessions : List Session

variable (st : SessionStore)

variable (s : Session) (id : String)

namespace SessionStore

def find : Option Session := st.sessions.find? fun s => s.id == id

def insert : SessionStore := ⟨s :: st.sessions.filter fun s' => s'.id != s.id⟩

def phase : Option SessionPhase := (st.find id).map Session.phase

theorem id_of_find {st : SessionStore} {id : String} {s : Session} (h : st.find id = some s) :
    s.id = id := by
  simpa using List.find?_some h

theorem find_insert : (st.insert s).find id = if s.id = id then some s else st.find id := by
  by_cases h : s.id = id
  · simp [find, insert, h]
  · rw [if_neg h]
    simp only [find, insert, List.find?_cons, beq_eq_false_iff_ne.mpr h, List.find?_filter]
    congr 1
    funext s'
    by_cases hs : s'.id = id
    · simp [hs, Ne.symm h]
    · simp [hs]

theorem phase_insert :
    (st.insert s).phase id = if s.id = id then some s.phase else st.phase id := by
  rw [phase, find_insert]
  split
  · rfl
  · rfl

end SessionStore

structure ServerWorld (X : Type) where
  store : SessionStore
  /-- The thread that holds the lock of a session id. -/
  locks : String → Option Nat
  services : X

section Host

variable {D : Type} {DAns : D → Type} {X : Type}

/--
What a call leads to.

A failed `Put` leaves the store as it was: the file is renamed into place as the last step that
can fail. `Get` may fail for other reasons than a missing session, and `List` skips what it cannot
read.
-/
def serverOutcomes (services : X → (d : D) → DAns d → List X) (t : Nat) (w : ServerWorld X) :
    (e : ServerOp D) → ServerOp.Ans DAns e → List (ServerWorld X)
  | .get id, .ok s => if w.store.find id = some s then [w] else []
  | .get id, .error .notFound => if w.store.find id = none then [w] else []
  | .get _, .error (.other _) => [w]
  | .put s, .ok () =>
    match s.validate with
    | .ok () => [{ w with store := w.store.insert s }]
    | .error _ => []
  | .put _, .error _ => [w]
  | .list, .ok l => if ∀ s ∈ l, s ∈ w.store.sessions then [w] else []
  | .list, .error _ => [w]
  | .now, _ => [w]
  | .lock id, () =>
    if w.locks id = none then [{ w with locks := update w.locks id (some t) }] else []
  | .unlock id, () =>
    if w.locks id = some t then [{ w with locks := update w.locks id none }] else []
  | .driver d, a => (services w.services d a).map fun x => { w with services := x }

section Outcomes

variable {services : X → (d : D) → DAns d → List X} {t : Nat} {w w' : ServerWorld X}

theorem mem_guarded {p : Prop} [Decidable p] {w₁ : ServerWorld X} :
    w' ∈ (if p then [w₁] else []) ↔ p ∧ w' = w₁ := by
  rw [mem_ite_nil_right, mem_singleton]

@[simp] theorem mem_outcomes_get_ok {id : String} {s : Session} :
    w' ∈ serverOutcomes services t w (.get id) (.ok s) ↔ w.store.find id = some s ∧ w' = w :=
  mem_guarded

@[simp] theorem mem_outcomes_get_notFound {id : String} :
    w' ∈ serverOutcomes services t w (.get id) (.error .notFound) ↔
      w.store.find id = none ∧ w' = w :=
  mem_guarded

@[simp] theorem mem_outcomes_get_other {id err : String} :
    w' ∈ serverOutcomes services t w (.get id) (.error (.other err)) ↔ w' = w :=
  mem_singleton

@[simp] theorem mem_outcomes_put_ok {s : Session} :
    w' ∈ serverOutcomes services t w (.put s) (.ok ()) ↔
      s.validate = .ok () ∧ w' = { w with store := w.store.insert s } := by
  change w' ∈ (match s.validate with | .ok () => [_] | .error _ => []) ↔ _
  split <;> simp_all

@[simp] theorem mem_outcomes_put_error {s : Session} {err : String} :
    w' ∈ serverOutcomes services t w (.put s) (.error err) ↔ w' = w :=
  mem_singleton

@[simp] theorem mem_outcomes_list_ok {l : List Session} :
    w' ∈ serverOutcomes services t w .list (.ok l) ↔ (∀ s ∈ l, s ∈ w.store.sessions) ∧ w' = w :=
  mem_guarded

@[simp] theorem mem_outcomes_list_error {err : String} :
    w' ∈ serverOutcomes services t w .list (.error err) ↔ w' = w :=
  mem_singleton

@[simp] theorem mem_outcomes_now {n : Int} : w' ∈ serverOutcomes services t w .now n ↔ w' = w :=
  mem_singleton

@[simp] theorem mem_outcomes_lock {id : String} : w' ∈ serverOutcomes services t w (.lock id) () ↔
      w.locks id = none ∧ w' = { w with locks := update w.locks id (some t) } :=
  mem_guarded

@[simp] theorem mem_outcomes_unlock {id : String} :
    w' ∈ serverOutcomes services t w (.unlock id) () ↔
      w.locks id = some t ∧ w' = { w with locks := update w.locks id none } :=
  mem_guarded

@[simp] theorem mem_outcomes_driver {d : D} {a : DAns d} :
    w' ∈ serverOutcomes services t w (.driver d) a ↔
      ∃ x ∈ services w.services d a, w' = { w with services := x } := by
  change w' ∈ (services w.services d a).map _ ↔ _
  simp only [mem_map, eq_comm]

theorem store_of_outcome {e : ServerOp D} {a : ServerOp.Ans DAns e}
    (h : w' ∈ serverOutcomes services t w e a) : w'.store = w.store ∨
      ∃ s, (⟨e, a⟩ : Event (ServerOp.Ans DAns)) = ⟨.put s, .ok ()⟩ ∧
        w'.store = w.store.insert s := by
  cases e with
  | get id =>
    rcases a with (_ | err) | s
    · exact .inl (congrArg _ (mem_outcomes_get_notFound.mp h).2)
    · exact .inl (congrArg _ (mem_outcomes_get_other.mp h))
    · exact .inl (congrArg _ (mem_outcomes_get_ok.mp h).2)
  | put s =>
    rcases a with err | u
    · exact .inl (congrArg _ (mem_outcomes_put_error.mp h))
    · exact .inr ⟨s, rfl, congrArg _ (mem_outcomes_put_ok.mp h).2⟩
  | list =>
    rcases a with err | l
    · exact .inl (congrArg _ (mem_outcomes_list_error.mp h))
    · exact .inl (congrArg _ (mem_outcomes_list_ok.mp h).2)
  | now => exact .inl (congrArg _ (mem_outcomes_now.mp h))
  | lock id =>
    obtain ⟨-, rfl⟩ := mem_outcomes_lock.mp h
    exact .inl rfl
  | unlock id =>
    obtain ⟨-, rfl⟩ := mem_outcomes_unlock.mp h
    exact .inl rfl
  | driver d =>
    obtain ⟨x, -, rfl⟩ := mem_outcomes_driver.mp h
    exact .inl rfl

end Outcomes

def serverHost (S : Server DAns) (services : X → (d : D) → DAns d → List X) :
    Host (ServerOp.Ans DAns) Outcome Nat (ServerWorld X) where
  outcomes := serverOutcomes services
  start _ p := S.Entry p
  env _ _ := False
  crash := False

def serverIdle (st : SessionStore) (x : X) : Conf (ServerOp.Ans DAns) Outcome Nat (ServerWorld X) :=
  Conf.idle ⟨st, fun _ => none, x⟩

def faultless (driver : (d : D) → DAns d) (clock : Int) (w : ServerWorld X) :
    (e : ServerOp D) → ServerOp.Ans DAns e
  | .get id =>
    match w.store.find id with
    | some s => .ok s
    | none => .error .notFound
  | .put _ => .ok ()
  | .list => .ok w.store.sessions
  | .now => clock
  | .lock _ => ()
  | .unlock _ => ()
  | .driver d => driver d

end Host

def localDriver : DestinationDriver fun _ : Empty => Unit where
  prepare _ := .ret (.ok ⟨true, "tcp:10.0.0.2:4444", "qemu", "", false⟩)
  commit _ := .ret (.ok ())
  abort _ := .ret (.ok ())
  diagnose := none

def sampleSession (phase : SessionPhase) : Session where
  id := "kmm-1"
  «namespace» := "default"
  machine := "vm"
  sourceNode := "node-a"
  targetNode := "node-b"
  runtimeID := "r-1"
  phase := phase
  backend := "qemu"
  endpoint := "tcp:10.0.0.2:4444"
  transferSupported := true
  reason := ""
  dataPlaneEncrypted := false
  networkSnapshot := "[]"
  conntrackSnapshot := ""
  diskPath := ""
  mac := ""
  vcpus := 1
  memoryMiB := 512
  migrationNetwork := ""
  createdAt := 0
  updatedAt := 0

end Kairon.Migration
