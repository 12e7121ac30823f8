import Kairon.Agent.MachineRule

/-!
# Whose runtime a name finds

The runtime of a Machine is named after its namespace and its name, joined by dashes that both may
contain, and the runtime of a fork child has the suffix `-1`. The agent finds runtimes by these
names.

* `runtimeName_eq_iff`: which keys have the same runtime name
* `runtimes_apart_iff`: which Machines the agent keeps apart
-/

namespace Kairon

open Infra GoText Model Cluster Agent List

def isDNSLabel (s : String) : Bool :=
  let letter := fun c : Char => c.isLower || c.isDigit
  s.toList.length ≤ 63 && s.toList.all (fun c => letter c || c == '-') &&
    s.toList.head?.any letter && s.toList.getLast?.any letter

def ValidKey (k : ObjectKey) : Prop :=
  isDNSLabel k.namespace = true ∧ isDNSLabel k.name = true

def forkKey (k : ObjectKey) : ObjectKey := ⟨k.namespace, k.name ++ "-1"⟩

/-- The two keys are the same, or the namespace of one of them reaches into the name of the
other. -/
def SameName (a b : ObjectKey) : Prop :=
  a = b ∨ (∃ x, b.namespace = a.namespace ++ "-" ++ x ∧ a.name = x ++ "-" ++ b.name) ∨
    ∃ x, a.namespace = b.namespace ++ "-" ++ x ∧ b.name = x ++ "-" ++ a.name

/-- The names of two Machines meet, or one meets the name of the other's fork. -/
def Colliding (k₁ k₂ : ObjectKey) : Prop :=
  SameName k₁ k₂ ∨ SameName k₁ (forkKey k₂) ∨ SameName (forkKey k₁) k₂

variable {k k' k₁ k₂ : ObjectKey} {m : Machine} {h : History}

theorem ValidKey.namespace_ne (hk : ValidKey k) : k.namespace ≠ "" := by
  intro he
  have := hk.1
  rw [he] at this
  revert this
  decide

theorem runtimeName_eq_iff {a b : ObjectKey} (ha : a.namespace ≠ "") (hb : b.namespace ≠ "") :
    a.runtimeName = b.runtimeName ↔ SameName a b := by
  obtain ⟨ns, name⟩ := a
  obtain ⟨ns', name'⟩ := b
  rw [ObjectKey.runtimeName, ObjectKey.effectiveNamespace, if_neg ha, ObjectKey.runtimeName,
    ObjectKey.effectiveNamespace, if_neg hb]
  have cancel : "kairon-" ++ ns ++ "-" ++ name = "kairon-" ++ ns' ++ "-" ++ name' ↔
      ns ++ "-" ++ name = ns' ++ "-" ++ name' := by
    simp only [← String.toList_inj, String.toList_append, append_assoc, append_cancel_left_eq]
  rw [cancel, dash_eq_dash_iff]
  simp only [SameName, ObjectKey.mk.injEq]

theorem runtimeName_forkKey (k : ObjectKey) : (forkKey k).runtimeName = k.runtimeName ++ "-1" := by
  simp only [ObjectKey.runtimeName, forkKey, ObjectKey.effectiveNamespace, String.append_assoc]
  rfl

/-! ## The runtimes of a node -/

structure Runtime where
  owner : ObjectKey
  forked : Bool
  record : RuntimeRecord
  named : record.name = (if forked then forkKey owner else owner).runtimeName

abbrev NodeRuntimes := Table fun r : Runtime => r.record.id

def OwnedBy (N : NodeRuntimes) (k : ObjectKey) (id : String) : Prop :=
  ∃ r ∈ N.rows, r.owner = k ∧ r.record.id = id

/-- FluxVM answers from what it holds: a lookup returns a runtime of exactly that name, and a fork
gets a new identifier. -/
def Served (N : NodeRuntimes) : Event ClusterOp.Ans → Prop
  | ⟨.flux _ (.lookupByName name), .ok (some rec)⟩ =>
    rec.name = name ∧ ∃ r ∈ N.rows, r.record = rec
  | ⟨.flux _ (.get id), .ok rec⟩ => rec.id = id
  | ⟨.flux _ (.fork _), .ok rec⟩ => ∀ r ∈ N.rows, r.record.id ≠ rec.id
  | _ => True

def target : FluxCall → Option String
  | .delete id | .stop id | .pause id | .resume id | .start id => some id
  | _ => none

/-- For no Machine of key `k` that has not recorded a runtime of `k'` does the agent get, adopt or
act on a runtime of `k'`. -/
def Keeps (k k' : ObjectKey) : Prop :=
  ∀ (a : Agent.Config) (m : Machine) (N : NodeRuntimes), m.key = k →
    ¬OwnedBy N k' m.status.runtimeID → (current m).Follows (fun _ _ => True)
      (fun h r => (∀ ev ∈ h, Served N ev) → ∀ rec, r = .ok (some rec) → ¬OwnedBy N k' rec.id)
      [] ∧
    (forkRuntime a m).Follows (fun _ _ => True)
      (fun h r => (∀ ev ∈ h, Served N ev) → ∀ rec, r = .ok rec → ¬OwnedBy N k' rec.id) [] ∧
    (reconcileMachine a m).Follows
      (fun h e => (∀ ev ∈ h, Served N ev) → ∀ s call id, e = .flux s call →
        target call = some id → ¬OwnedBy N k' id) Anyhow []

structure Apart (k₁ k₂ : ObjectKey) : Prop where
  names : k₁.runtimeName ≠ k₂.runtimeName
  keeps₁ : Keeps k₁ k₂
  keeps₂ : Keeps k₂ k₁

theorem not_ownedBy_of_name {N : NodeRuntimes} {name : String} {rec : RuntimeRecord}
    (hrec : rec.name = name ∧ ∃ r ∈ N.rows, r.record = rec) (h₁ : name ≠ k'.runtimeName)
    (h₂ : name ≠ (forkKey k').runtimeName) : ¬OwnedBy N k' rec.id := by
  rintro ⟨r', hr', rfl, hid⟩
  obtain ⟨rfl, r, hr, rfl⟩ := hrec
  obtain rfl : r' = r := inj_on_of_nodup_map N.distinct hr' hr hid
  have hnamed := r'.named
  split at hnamed
  · exact h₂ hnamed
  · exact h₁ hnamed

theorem not_ownedBy_of_found {N : NodeRuntimes} {rec : RuntimeRecord}
    (hown : ¬OwnedBy N k' m.status.runtimeID) (hserved : ∀ ev ∈ h, Served N ev)
    (hfound : Found m rec h) (h₁ : m.key.runtimeName ≠ k'.runtimeName)
    (h₂ : m.key.runtimeName ≠ (forkKey k').runtimeName) : ¬OwnedBy N k' rec.id := by
  rcases hfound with ⟨-, hget⟩ | hlookup
  · have hid : rec.id = m.status.runtimeID := hserved _ hget
    rwa [hid]
  · exact not_ownedBy_of_name (hserved _ hlookup) h₁ h₂

/-- A fork child's runtime was found by its name, or was forked just now. -/
def Adopted (m : Machine) (rec : RuntimeRecord) (h : History) : Prop :=
  ⟨.flux (.machine m) (.lookupByName (m.key.runtimeName ++ "-1")),
      (.ok (some rec) : Except String (Option RuntimeRecord))⟩ ∈ h ∨
    ∃ id, ⟨.flux (.machine m) (.fork id), (.ok rec : Except String RuntimeRecord)⟩ ∈ h

theorem forkRuntime_adopts (a : Agent.Config) :
    (forkRuntime a m).Follows (fun _ _ => True) (fun h r => ∀ rec, r = .ok rec → Adopted m rec h)
      h := by
  refine ⟨trivial, fun r => ?_⟩
  match r with
  | .error e => exact nofun
  | .ok (some rec) =>
    intro rec' hrec
    cases hrec
    exact .inl mem_cons_self
  | .ok none =>
    split
    · exact nofun
    · refine ⟨trivial, fun | .error _ => nofun | .ok parent => ?_⟩
      refine .ite (fun _ => nofun) fun _ => ?_
      refine (current_follows parent (fun _ _ => trivial) fun _ _ => trivial).andThen
        (fun _ _ _ => nofun) fun h' o _ => ?_
      match o with
      | none => exact nofun
      | some src =>
        refine .ite (fun _ => nofun) fun _ => ?_
        refine ⟨trivial, fun | .error _ => nofun | .ok rec => ?_⟩
        intro rec' hrec
        cases hrec
        exact .inr ⟨_, mem_cons_self⟩

theorem keeps_of_names (hnames : k.runtimeName ≠ k'.runtimeName)
    (hfork : k.runtimeName ≠ (forkKey k').runtimeName)
    (hfork' : (forkKey k).runtimeName ≠ k'.runtimeName) : Keeps k k' := by
  rintro a m N rfl hown
  have found : ∀ {h : History} {rec : RuntimeRecord}, (∀ ev ∈ h, Served N ev) → Found m rec h →
      ¬OwnedBy N k' rec.id :=
    fun hserved hfound => not_ownedBy_of_found hown hserved hfound hnames hfork
  refine ⟨?_, ?_, ?_⟩
  · refine (current_follows m (fun _ _ => trivial) fun _ _ => trivial).weaken ?_
    intro h r hr hserved rec hrec
    exact found hserved (hr _ hrec)
  · refine (forkRuntime_adopts a).weaken ?_
    intro h r hr hserved rec hrec
    rcases hr rec hrec with hlookup | ⟨id, hforked⟩
    · refine not_ownedBy_of_name (hserved _ hlookup) ?_ ?_
      · rwa [← runtimeName_forkKey]
      · rw [runtimeName_forkKey]
        exact fun he => hnames (by simpa using he)
    · rintro ⟨r', hr', -, hid⟩
      exact hserved _ hforked r' hr' hid
  · refine reconcileMachine_follows.mono ?_ fun _ _ _ => trivial
    rintro h e he hserved s call id rfl hid
    cases s with
    | migration item => exact he.elim
    | machine x =>
      cases call with
      | delete id' =>
        cases hid
        obtain ⟨rfl, ⟨rec, hfound, rfl⟩ | rfl⟩ := he
        · exact found hserved hfound
        · exact hown
      | stop id' | pause id' =>
        cases hid
        obtain ⟨rfl, rec, hfound, rfl⟩ := he
        exact found hserved hfound
      | resume id' =>
        cases hid
        obtain ⟨rfl, -, -, rec, hfound, rfl, -⟩ := he
        exact found hserved hfound
      | start id' =>
        cases hid
        obtain ⟨rfl, -, rec, hfound, rfl, -⟩ := he
        exact found hserved hfound
      | _ => cases hid

/-! ## Names that meet -/

def machineOf (k : ObjectKey) : Machine :=
  let m := plainMachine k.name "node-a" twoCores
  { m with metadata := { m.metadata with «namespace» := k.namespace } }

theorem key_machineOf (hk : k.namespace ≠ "") : (machineOf k).key = k := by
  simp [machineOf, plainMachine, plainMeta, Machine.key, ObjectMeta.key,
    ObjectKey.effectiveNamespace, hk]

def runtimeOf (k : ObjectKey) (forked : Bool) : Runtime where
  owner := k
  forked := forked
  record := { plainRecord "running" with name := (if forked then forkKey k else k).runtimeName }
  named := rfl

def nodeOf (k : ObjectKey) (forked : Bool) : NodeRuntimes :=
  ⟨[runtimeOf k forked], nodup_singleton _⟩

theorem ownedBy_nodeOf (forked : Bool) :
    OwnedBy (nodeOf k forked) k (runtimeOf k forked).record.id :=
  ⟨_, mem_singleton_self _, rfl, rfl⟩

theorem served_nodeOf {forked : Bool} {name : String} {s : Subject}
    (hname : (runtimeOf k forked).record.name = name) : ∀ ev ∈ [(⟨.flux s (.lookupByName name),
        (.ok (some (runtimeOf k forked).record) : Except String (Option RuntimeRecord))⟩ :
      Event ClusterOp.Ans)], Served (nodeOf k forked) ev := by
  intro ev hev
  cases mem_singleton.mp hev
  exact ⟨hname, _, mem_singleton_self _, rfl⟩

theorem not_keeps_of_name (forked : Bool) (hk : k.namespace ≠ "")
    (hname : (if forked then forkKey k' else k').runtimeName = k.runtimeName) : ¬Keeps k k' := by
  intro hkeep
  have hown : ¬OwnedBy (nodeOf k' forked) k' (machineOf k).status.runtimeID := by
    rintro ⟨r, hr, -, hid⟩
    rw [mem_singleton.mp hr] at hid
    have hid : "r-1" = "" := hid
    exact absurd hid (by decide)
  have hcur := (hkeep ⟨"node-a", true, true, id⟩ (machineOf k) _ (key_machineOf hk) hown).1
  rw [current, if_neg (fun h => h rfl), key_machineOf hk] at hcur
  exact hcur.2 (.ok (some (runtimeOf k' forked).record)) (served_nodeOf hname) _ rfl
    (ownedBy_nodeOf forked)

/-- Two Machines with valid keys have distinct runtime names, and the agent never gets, adopts,
stops or deletes a runtime of one for the other, exactly when their names do not meet. -/
theorem runtimes_apart_iff (h₁ : ValidKey k₁) (h₂ : ValidKey k₂) :
    Apart k₁ k₂ ↔ ¬Colliding k₁ k₂ := by
  have ns₁ := h₁.namespace_ne
  have ns₂ := h₂.namespace_ne
  have names := runtimeName_eq_iff ns₁ ns₂
  have fork₂ : k₁.runtimeName = (forkKey k₂).runtimeName ↔ SameName k₁ (forkKey k₂) :=
    runtimeName_eq_iff ns₁ ns₂
  have fork₁ : (forkKey k₁).runtimeName = k₂.runtimeName ↔ SameName (forkKey k₁) k₂ :=
    runtimeName_eq_iff ns₁ ns₂
  constructor
  · rintro ⟨hnames, hkeep₁, hkeep₂⟩ (h | h | h)
    · exact hnames (names.mpr h)
    · exact not_keeps_of_name true ns₁ (fork₂.mpr h).symm hkeep₁
    · exact not_keeps_of_name true ns₂ (fork₁.mpr h) hkeep₂
  · intro hno
    have hnames : k₁.runtimeName ≠ k₂.runtimeName := fun h => hno (.inl (names.mp h))
    have hfork₂ : k₁.runtimeName ≠ (forkKey k₂).runtimeName :=
      fun h => hno (.inr (.inl (fork₂.mp h)))
    have hfork₁ : (forkKey k₁).runtimeName ≠ k₂.runtimeName :=
      fun h => hno (.inr (.inr (fork₁.mp h)))
    exact ⟨hnames, keeps_of_names hnames hfork₂ hfork₁,
      keeps_of_names hnames.symm hfork₁.symm hfork₂.symm⟩

/-- The namespaces `a` and `a-b` meet in the runtime name `kairon-a-b-c`: to stop the Machine `b-c`
of the first, the agent deletes the runtime of the Machine `c` of the second. -/
theorem stop_deletes_foreign_runtime : let k₁ : ObjectKey := ⟨"a", "b-c"⟩
    let k₂ : ObjectKey := ⟨"a-b", "c"⟩
    let m := machineOf k₁
    let stopped := { m with spec := { m.spec with powerState := "Stopped" } }
    ValidKey k₁ ∧ ValidKey k₂ ∧ k₁ ≠ k₂ ∧ k₁.runtimeName = k₂.runtimeName ∧ stopped.key = k₁ ∧
      ¬(reconcileMachine ⟨"node-a", true, true, id⟩ stopped).Follows
        (fun h e => (∀ ev ∈ h, Served (nodeOf k₂ false) ev) → ∀ s call id, e = .flux s call →
          target call = some id → ¬OwnedBy (nodeOf k₂ false) k₂ id) Anyhow [] := by
  refine ⟨by unfold ValidKey; decide, by unfold ValidKey; decide, by decide, by decide, by decide,
    fun hfollows => ?_⟩
  obtain ⟨hdelete, -⟩ := hfollows.2 (.ok (some (runtimeOf ⟨"a-b", "c"⟩ false).record))
  exact hdelete (served_nodeOf (by decide)) _ _ _ rfl rfl (ownedBy_nodeOf false)

theorem runtimes_apart_iff_plain : ValidKey ⟨"default", "vm"⟩ ∧ ValidKey ⟨"default", "web"⟩ ∧
      Apart ⟨"default", "vm"⟩ ⟨"default", "web"⟩ := by
  have h₁ : ValidKey ⟨"default", "vm"⟩ := by unfold ValidKey; decide
  have h₂ : ValidKey ⟨"default", "web"⟩ := by unfold ValidKey; decide
  refine ⟨h₁, h₂, (runtimes_apart_iff h₁ h₂).mpr ?_⟩
  have apart : ∀ {a b : ObjectKey}, a.namespace ≠ "" → b.namespace ≠ "" →
      a.runtimeName ≠ b.runtimeName → ¬SameName a b :=
    fun ha hb hn h => hn ((runtimeName_eq_iff ha hb).mpr h)
  rintro (h | h | h)
  · exact apart (by decide) (by decide) (by decide) h
  · exact apart (by decide) (by decide) (by decide) h
  · exact apart (by decide) (by decide) (by decide) h

end Kairon
