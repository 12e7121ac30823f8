import Kairon.Infra.Trace
import Kairon.Network.Rule

/-!
# What a pass leaves a VM under

The policies of a listing write to the same VMs one after the other, so what counts for a VM is the
last push of the pass. If FluxVM answers every call, it is a function of what the pass was told.
-/

namespace Kairon.Network

open Infra Model Cluster List Option

abbrev Push := Option ObjectKey × VmNetworkPolicy

def reset : Push := (none, { defaultAllow := true })

def pushed (id : String) : NetworkOp → Option Push
  | .setVMNetworkPolicy owner i policy => if i = id then some (owner, policy) else none
  | _ => none

def lastPush (id : String) : History → Option Push
  | [] => none
  | ev :: h => (pushed id ev.op).or (lastPush id h)

/-- What a pass is told: the listings, and for which policies the API server refuses a patch of the
finalizers. -/
structure Told where
  groups : List NetworkSecurityGroup
  policies : List MachineNetworkPolicy
  machines : List Machine
  refuses : ObjectKey → Bool

namespace Told

def Answers (s : Told) : Event NetworkOp.Ans → Prop
  | ⟨.listNetworkSecurityGroups, r⟩ => r = .ok s.groups
  | ⟨.listMachineNetworkPolicies, r⟩ => r = .ok s.policies
  | ⟨.listMachines, r⟩ => r = .ok s.machines
  | ⟨.patchMachineNetworkPolicy k _, .ok ()⟩ => s.refuses k = false
  | ⟨.patchMachineNetworkPolicy k _, .error _⟩ => s.refuses k = true
  | ⟨.setVMNetworkPolicy _ _ _, r⟩ | ⟨.applyCNP _, r⟩ | ⟨.deleteNetworkGroup _, r⟩ => r = .ok ()
  | ⟨.upsertNetworkGroup _ _, .error _⟩ | ⟨.getVMNetworkPolicy _, .error _⟩ => False
  | _ => True

def answer (s : Told) : (e : NetworkOp) → e.Ans
  | .listNetworkSecurityGroups => .ok s.groups
  | .listMachineNetworkPolicies => .ok s.policies
  | .listMachines => .ok s.machines
  | .patchMachineNetworkPolicy k _ => if s.refuses k then .error ⟨false, "conflict"⟩ else .ok ()
  | .patchNetworkSecurityGroup _ _ | .patchNetworkSecurityGroupStatus _ _
  | .patchMachineNetworkPolicyStatus _ _ => .ok ()
  | .upsertNetworkGroup _ _ => .ok (1 : UInt32)
  | .deleteNetworkGroup _ | .setVMNetworkPolicy _ _ _ | .applyCNP _ => .ok ()
  | .getVMNetworkPolicy _ => .ok ({ defaultAllow := false } : VmNetworkPolicy)
  | .now => (⟨1⟩ : Time)

theorem answers_answer (s : Told) (e : NetworkOp) : s.Answers ⟨e, s.answer e⟩ := by
  cases e with
  | patchMachineNetworkPolicy k fs =>
    cases hk : s.refuses k with
    | true => simp [answer, Answers, hk]
    | false => simp [answer, Answers, hk]
  | listNetworkSecurityGroups | listMachineNetworkPolicies | listMachines
  | setVMNetworkPolicy | applyCNP | deleteNetworkGroup => exact rfl
  | _ => trivial

/-- The policy holds the finalizer by the time it is applied. -/
def held (s : Told) (q : MachineNetworkPolicy) : Bool :=
  q.metadata.finalizers.contains finalizerNetworkPolicy || !s.refuses q.key

def pushFor (s : Told) (q : MachineNetworkPolicy) (m : Machine) : Push :=
  (some q.key, mergeDenies q.spec.policy (deniesFor s.groups m))

def targets (s : Told) (a : Config) (q : MachineNetworkPolicy) : List Machine :=
  s.machines.filter fun m => reaches a.nodeName q m && m.status.phase == "Running"

def stale (s : Told) (a : Config) (q : MachineNetworkPolicy) (name : String) : Option Machine :=
  if ((s.targets a q).map fun m => m.metadata.name).contains name then none
  else (findMachineByName s.machines q.key.namespace name).filter fun m =>
    m.spec.nodeName = a.nodeName && m.status.runtimeID ≠ "" &&
      !anotherPolicyStillSelects s.policies q m

end Told

def onVM (id : String) (push : Push) (m : Machine) : Option Push :=
  if m.status.runtimeID = id then some push else none

/-- What the turn of a policy puts the VM under. -/
def turn (a : Config) (s : Told) (id : String) (q : MachineNetworkPolicy) : Option Push :=
  if q.metadata.deleting then
    if q.metadata.finalizers.contains finalizerNetworkPolicy then
      latest (onVM id reset) (s.machines.filter (reaches a.nodeName q))
    else none
  else if s.held q then
    (latest (fun name => (s.stale a q name).bind (onVM id reset)) q.status.appliedMachines).or
      (latest (fun m => onVM id (s.pushFor q m) m) (s.targets a q))
  else none

def fallback (a : Config) (s : Told) (id : String) : Option Push :=
  (latest (fun m => onVM id
      (none, mergeDenies { defaultAllow := !a.networkDefaultDeny } (deniesFor s.groups m)) m)
    (s.machines.filter fun m => unmatched a s.policies m && m.spec.tenant ≠ "" &&
      wantsFence m.metadata.annotations && deniesFor s.groups m ≠ [])).or
  (if a.networkDefaultDeny then
    latest (onVM id (none, { defaultAllow := false })) (s.machines.filter (unmatched a s.policies))
  else none)

variable {a : Config} {s : Told} (id : String) {h : History} {q : MachineNetworkPolicy}

/-! ## The turn of a policy -/

abbrev Pushes {α : Type} (id : String) (push : Option Push) (h : History) : History → α → Prop :=
  fun h' _ => lastPush id h' = push.or (lastPush id h)

abbrev PushesOk (id : String) (push : Option Push) (h : History) : History → GoErr → Prop :=
  fun h' r => r = .ok () ∧ lastPush id h' = push.or (lastPush id h)

theorem resetVM_ends (what : String) (m : Machine) :
    (resetVM what m).Ends s.Answers (PushesOk id (onVM id reset m) h) h := by
  intro r hr
  cases (show r = .ok () from hr)
  exact ⟨rfl, rfl⟩

theorem deleteMachineNetworkPolicy_ends (hdel : q.metadata.deleting = true) :
    (deleteMachineNetworkPolicy a q s.machines).Ends s.Answers (Pushes id (turn a s id q) h) h := by
  unfold deleteMachineNetworkPolicy turn
  rw [if_pos hdel]
  split
  · have resets : (Prog.tryEach (resetVM "reset network policy")
        (s.machines.filter (reaches a.nodeName q))).Ends s.Answers
        (PushesOk id (latest (onVM id reset) (s.machines.filter (reaches a.nodeName q))) h) h :=
      Prog.Ends.tryEach_latest fun _ m _ => resetVM_ends id _ m
    refine resets.bind fun h₁ r ⟨hr, h₁push⟩ => ?_
    subst hr
    exact fun _ _ => h₁push
  · exact rfl

theorem holdMachineNetworkPolicy_ends : (holdMachineNetworkPolicy q).Ends s.Answers
      (fun h' r => lastPush id h' = lastPush id h ∧
        if s.held q then r = .ok () else ∃ e, r = .error e) h := by
  unfold holdMachineNetworkPolicy Told.held
  by_cases hfin : q.metadata.finalizers.contains finalizerNetworkPolicy = true
  · rw [if_pos hfin, hfin]
    exact ⟨rfl, rfl⟩
  · rw [if_neg hfin, Bool.eq_false_iff.mpr hfin, Bool.false_or]
    intro r hr
    refine ⟨rfl, ?_⟩
    match r with
    | .ok () =>
      rw [show s.refuses q.key = false from hr]
      exact rfl
    | .error e =>
      rw [show s.refuses q.key = true from hr]
      exact ⟨e.text, rfl⟩

theorem postCNP_ends : (postCNP q).Ends s.Answers (PushesOk id none h) h := by
  unfold postCNP
  split
  · exact ⟨rfl, rfl⟩
  · intro r hr
    cases (show r = .ok () from hr)
    exact ⟨rfl, rfl⟩

theorem applyPolicy_ends (names : List String) (confirmed : Bool) (ms : List Machine) :
    (applyPolicy q (deniesFor s.groups) names confirmed ms).Ends s.Answers
      (fun h' r => lastPush id h' = (latest (fun m => onVM id (s.pushFor q m) m) ms).or
          (lastPush id h) ∧
        ∃ b, r = .ok (names ++ ms.map (fun m => m.metadata.name), b)) h := by
  induction ms generalizing h names confirmed with
  | nil => exact ⟨rfl, confirmed, by rw [map_nil, append_nil]⟩
  | cons m ms ih =>
    intro r hr
    cases (show r = .ok () from hr)
    refine fun _ _ => (ih _ _).mono fun h' r ⟨hpush, b, hb⟩ => ⟨?_, b, ?_⟩
    · rw [hpush, latest_cons, Option.or_assoc]
      rfl
    · rw [hb, append_assoc]
      rfl

theorem pruneMachine_ends (name : String) :
    (pruneMachine a q s.policies s.machines ((s.targets a q).map fun m => m.metadata.name)
      name).Ends s.Answers (PushesOk id ((s.stale a q name).bind (onVM id reset)) h) h := by
  unfold pruneMachine Told.stale
  split
  · exact ⟨rfl, rfl⟩
  · cases findMachineByName s.machines q.key.namespace name with
    | none => exact ⟨rfl, rfl⟩
    | some m =>
      dsimp only
      split
      · next hno =>
        refine ⟨rfl, ?_⟩
        rw [filter_some_neg]
        · rfl
        · rcases hno with hno | hno <;> simp [hno]
      · next hyes =>
        obtain ⟨hnode, hid⟩ := not_or.mp hyes
        split
        · next hother =>
          refine ⟨rfl, ?_⟩
          rw [filter_some_neg (by simp [hother])]
          rfl
        · next hother =>
          rw [filter_some_pos (by simpa [hid, hother] using hnode)]
          exact resetVM_ends id _ m

theorem reconcileMachineNetworkPolicy_ends :
    (reconcileMachineNetworkPolicy a (deniesFor s.groups) q s.policies s.machines).Ends s.Answers
      (Pushes id (turn a s id q) h) h := by
  unfold reconcileMachineNetworkPolicy
  split
  · next hdel => exact deleteMachineNetworkPolicy_ends id hdel
  · next hdel =>
    unfold turn
    rw [if_neg hdel]
    refine (holdMachineNetworkPolicy_ends id).bind fun h₁ r ⟨h₁push, hr⟩ => ?_
    by_cases hheld : s.held q = true
    · rw [if_pos hheld] at hr ⊢
      subst hr
      refine (postCNP_ends id).bind fun h₂ r ⟨hr, h₂push⟩ => ?_
      subst hr
      refine (applyPolicy_ends id [] true (s.targets a q)).bind fun h₃ r ⟨h₃push, b, hr⟩ => ?_
      subst hr
      have prune : (Prog.tryEach (pruneMachine a q s.policies s.machines
          ((s.targets a q).map fun m => m.metadata.name)) q.status.appliedMachines).Ends s.Answers
          (PushesOk id (latest (fun name => (s.stale a q name).bind (onVM id reset))
            q.status.appliedMachines) h₃) h₃ :=
        Prog.Ends.tryEach_latest fun _ name _ => pruneMachine_ends id name
      refine prune.bind fun h₄ r ⟨hr, h₄push⟩ => ?_
      subst hr
      intro _ _ _ _
      show lastPush id h₄ = _
      rw [h₄push, h₃push, h₂push, h₁push, none_or, Option.or_assoc]
    · rw [if_neg hheld] at hr ⊢
      obtain ⟨e, rfl⟩ := hr
      exact h₁push

theorem policyTick_ends : (policyTick a (deniesFor s.groups) s.policies s.machines q).Ends s.Answers
      (Pushes id (turn a s id q) h) h := by
  refine (reconcileMachineNetworkPolicy_ends id).bind fun h₁ r hpush => ?_
  match r with
  | .ok () => exact hpush
  | .error e => exact fun _ _ => hpush

/-! ## The pass -/

theorem pushAll_ends (policyOf : Machine → VmNetworkPolicy) (ms : List Machine) :
    (Prog.forEach (fun m => (call (.setVMNetworkPolicy none m.status.runtimeID (policyOf m))).bind
      fun _ => .ret ()) ms).Ends s.Answers
      (Pushes id (latest (fun m => onVM id (none, policyOf m) m) ms) h) h :=
  Prog.Ends.forEach_latest fun _ _ _ _ _ => rfl

theorem groupTick_ends (g : NetworkSecurityGroup) :
    (groupTick a g).Ends s.Answers (Pushes id none h) h := by
  have quiet : (reconcileSecurityGroup a g).Ends s.Answers (Pushes id none h) h := by
    unfold reconcileSecurityGroup
    split
    · unfold deleteSecurityGroup
      split
      · intro r hr
        cases (show r = .ok () from hr)
        exact fun _ _ => rfl
      · exact rfl
    · have hold : (holdSecurityGroup g).Ends s.Answers (Pushes id none h) h := by
        unfold holdSecurityGroup
        split
        · exact rfl
        · exact fun _ _ => rfl
      refine hold.bind fun h₁ r h₁push => ?_
      match r with
      | .error e => exact h₁push
      | .ok () =>
        intro r hr
        match r with
        | .error e => exact hr.elim
        | .ok identity => exact fun _ _ => h₁push
  refine quiet.bind fun h₁ r h₁push => ?_
  match r with
  | .ok () => exact h₁push
  | .error e => exact fun _ _ => h₁push

/-- In a pass that is told `s`, the last push to a VM is one for a Machine without a policy, or
that of the last policy whose turn had one; the pass knows what it was told. -/
theorem reconcileNetworkResources_ends (a : Config) (s : Told) (id : String) :
    (reconcileNetworkResources a).Ends s.Answers
      (fun h _ => lastPush id h = (fallback a s id).or (latest (turn a s id) s.policies)) [] := by
  intro r hr
  cases (show r = .ok s.groups from hr)
  have groups : (Prog.forEach (groupTick a) s.groups).Ends s.Answers
      (Pushes id (latest (fun _ => none) s.groups)
        [⟨.listNetworkSecurityGroups, .ok s.groups⟩]) _ :=
    Prog.Ends.forEach_latest fun _ g _ => groupTick_ends id g
  refine groups.bind fun h₁ _ h₁push => ?_
  have h₁push : lastPush id h₁ = none := by
    rw [h₁push, latest_eq_none_iff.mpr fun _ _ => rfl]
    rfl
  intro r hr
  cases (show r = .ok s.policies from hr)
  intro r hr
  cases (show r = .ok s.machines from hr)
  have turns : ∀ h, (Prog.forEach (policyTick a (deniesFor s.groups) s.policies s.machines)
      s.policies).Ends s.Answers (Pushes id (latest (turn a s id) s.policies) h) h :=
    fun _ => Prog.Ends.forEach_latest fun _ q _ => policyTick_ends id
  refine (turns _).bind fun h₂ _ h₂push => ?_
  have h₂push : lastPush id h₂ = latest (turn a s id) s.policies := by
    rw [h₂push]
    show (latest (turn a s id) s.policies).or (lastPush id h₁) = _
    rw [h₁push, or_none]
  have deny : (if a.networkDefaultDeny then enforceNetworkDefaultDeny a s.policies s.machines
      else .ret ()).Ends s.Answers (Pushes id (if a.networkDefaultDeny then
        latest (onVM id (none, { defaultAllow := false }))
          (s.machines.filter (unmatched a s.policies)) else none) h₂) h₂ := by
    split
    · exact pushAll_ends id (fun _ => { defaultAllow := false }) _
    · exact rfl
  refine deny.bind fun h₃ _ h₃push => ?_
  refine (pushAll_ends id (fun m => mergeDenies { defaultAllow := !a.networkDefaultDeny }
    (deniesFor s.groups m)) _).bind fun h₄ _ h₄push => ?_
  show lastPush id h₄ = _
  rw [h₄push, h₃push, h₂push, fallback, Option.or_assoc]

theorem reconcileNetworkResources_listed (a : Config) (s : Told) :
    (reconcileNetworkResources a).Ends s.Answers
      (fun h _ => ⟨.listMachines, .ok s.machines⟩ ∈ h) [] := by
  intro r hr
  cases (show r = .ok s.groups from hr)
  refine (Prog.ends_any (Prog.forEach (groupTick a) s.groups) _).bind fun h₁ _ _ => ?_
  intro r hr
  cases (show r = .ok s.policies from hr)
  intro r hr
  cases (show r = .ok s.machines from hr)
  exact (Prog.ends_any _ _).extend.mono fun h _ hsuf => hsuf.1.subset mem_cons_self

/-! ## A VM that one Machine has for itself -/

def covers (q : MachineNetworkPolicy) (m : Machine) : Bool :=
  m.key.namespace = q.key.namespace && policySelectsMachine q m

structure OwnVM (a : Config) (s : Told) (m : Machine) : Prop where
  listed : m ∈ s.machines
  here : m.spec.nodeName = a.nodeName
  running : m.status.phase = "Running"
  runtime : m.status.runtimeID ≠ ""
  own : ∀ x ∈ s.machines, x.spec.nodeName = a.nodeName →
    x.status.runtimeID = m.status.runtimeID → x = m

variable {m : Machine} {b : Push}

theorem onVM_eq_some {push : Push} (h : onVM id push m = some b) :
    m.status.runtimeID = id ∧ b = push := by
  obtain ⟨hid, h⟩ := ite_none_right_eq_some.mp h
  exact ⟨hid, (Option.some.inj h).symm⟩

theorem latest_onVM_iff {ms : List Machine} (f : Machine → Push)
    (hown : ∀ x ∈ ms, x.status.runtimeID = m.status.runtimeID → x = m) :
    latest (fun x => onVM m.status.runtimeID (f x) x) ms = some b ↔ m ∈ ms ∧ b = f m := by
  have only : ∀ x ∈ ms, ∀ c, onVM m.status.runtimeID (f x) x = some c → c = f m := by
    intro x hx c hc
    obtain ⟨hid, rfl⟩ := onVM_eq_some _ hc
    rw [hown x hx hid]
  constructor
  · intro h
    obtain ⟨x, hx, hb⟩ := exists_of_latest h
    exact ⟨hown x hx (onVM_eq_some _ hb).1 ▸ hx, only x hx b hb⟩
  · rintro ⟨hm, rfl⟩
    exact (latest_eq_some_iff_exists only).mpr ⟨m, hm, if_pos rfl⟩

namespace OwnVM

theorem reaches_iff (hm : OwnVM a s m) : reaches a.nodeName q m = covers q m := by
  simp [reaches, covers, hm.here, hm.runtime]

theorem mem_targets_iff (hm : OwnVM a s m) : m ∈ s.targets a q ↔ covers q m = true := by
  simp [Told.targets, hm.reaches_iff, hm.listed, hm.running]

theorem eq_of_reaches (hm : OwnVM a s m) {x : Machine} (hx : x ∈ s.machines)
    (hr : reaches a.nodeName q x = true) (hid : x.status.runtimeID = m.status.runtimeID) :
    x = m := by
  simp only [reaches, Bool.and_eq_true, decide_eq_true_eq] at hr
  exact hm.own x hx hr.1.1.1 hid

theorem eq_of_mem_targets (hm : OwnVM a s m) {x : Machine} (hx : x ∈ s.targets a q)
    (hid : x.status.runtimeID = m.status.runtimeID) : x = m := by
  simp only [Told.targets, mem_filter, Bool.and_eq_true] at hx
  exact hm.eq_of_reaches hx.1 hx.2.1 hid

end OwnVM

theorem stale_eq_some {name : String} (h : s.stale a q name = some m) :
    name ∉ (s.targets a q).map (fun x => x.metadata.name) ∧ m ∈ s.machines ∧
      m.key.namespace = q.key.namespace ∧ m.metadata.name = name ∧
      m.spec.nodeName = a.nodeName ∧ anotherPolicyStillSelects s.policies q m = false := by
  obtain ⟨hno, h⟩ := ite_none_left_eq_some.mp h
  obtain ⟨hfind, hm⟩ := filter_eq_some_iff.mp h
  have hname := List.find?_some hfind
  simp only [decide_eq_true_eq] at hname
  simp only [Bool.and_eq_true, decide_eq_true_eq, Bool.not_eq_true'] at hm
  exact ⟨fun hc => hno (contains_iff_mem.mpr hc), mem_of_find?_eq_some hfind, hname.1,
    hname.2, hm.1.1, hm.2⟩

theorem latest_stale_iff (hm : OwnVM a s m) (names : List String) :
    latest (fun name => (s.stale a q name).bind (onVM m.status.runtimeID reset)) names = some b ↔
      (∃ name ∈ names, s.stale a q name = some m) ∧ b = reset := by
  have inv : ∀ name c, (s.stale a q name).bind (onVM m.status.runtimeID reset) = some c →
      s.stale a q name = some m ∧ c = reset := by
    intro name c hc
    obtain ⟨x, hx, hpush⟩ := bind_eq_some_iff.mp hc
    obtain ⟨hid, rfl⟩ := onVM_eq_some _ hpush
    obtain ⟨-, hmem, -, -, hnode, -⟩ := stale_eq_some hx
    exact ⟨hm.own x hmem hnode hid ▸ hx, rfl⟩
  constructor
  · intro h
    obtain ⟨name, hname, hb⟩ := exists_of_latest h
    exact ⟨⟨name, hname, (inv name b hb).1⟩, (inv name b hb).2⟩
  · rintro ⟨⟨name, hname, hstale⟩, rfl⟩
    refine (latest_eq_some_iff_exists fun n _ c hc => (inv n c hc).2).mpr ⟨name, hname, ?_⟩
    rw [hstale]
    exact if_pos rfl

/-- The turn of a policy resets the VM if the policy is being deleted, applies the policy if it
covers the Machine, and resets the VM if the policy was applied to the Machine before. -/
theorem turn_eq_some_iff (hm : OwnVM a s m) : turn a s m.status.runtimeID q = some b ↔
      (q.leaving = true ∧ covers q m = true ∧ b = reset) ∨
      (q.metadata.deleting = false ∧ s.held q = true ∧ covers q m = true ∧ b = s.pushFor q m) ∨
      (q.metadata.deleting = false ∧ s.held q = true ∧ covers q m = false ∧
        (∃ name ∈ q.status.appliedMachines, s.stale a q name = some m) ∧ b = reset) := by
  unfold turn MachineNetworkPolicy.leaving
  cases hdel : q.metadata.deleting with
  | true =>
    rw [if_pos rfl]
    by_cases hfin : q.metadata.finalizers.contains finalizerNetworkPolicy = true
    · have resets : latest (onVM m.status.runtimeID reset)
          (s.machines.filter (reaches a.nodeName q)) = some b ↔
          m ∈ s.machines.filter (reaches a.nodeName q) ∧ b = reset :=
        latest_onVM_iff (fun _ => reset) fun x hx => hm.eq_of_reaches (mem_filter.mp hx).1
          (mem_filter.mp hx).2
      rw [if_pos hfin, resets, mem_filter, hm.reaches_iff]
      simp only [hfin, hm.listed, Bool.and_self, true_and, Bool.true_eq_false, false_and, or_false]
    · rw [if_neg hfin, Bool.eq_false_iff.mpr hfin]
      simp
  | false =>
    rw [if_neg Bool.false_ne_true]
    by_cases hheld : s.held q = true
    · have pushes := latest_onVM_iff (b := b) (s.pushFor q)
        fun x hx => hm.eq_of_mem_targets (q := q) hx
      rw [if_pos hheld, or_eq_some_iff, latest_stale_iff hm, pushes, hm.mem_targets_iff]
      cases hcov : covers q m with
      | true =>
        -- a Machine that the policy is applied to is not one of those it was applied to before
        have hno : ¬∃ name ∈ q.status.appliedMachines, s.stale a q name = some m := by
          rintro ⟨name, -, hstale⟩
          obtain ⟨hname, -, -, rfl, -⟩ := stale_eq_some hstale
          exact hname (List.mem_map_of_mem (hm.mem_targets_iff.mpr hcov))
        have hnone : latest (fun name => (s.stale a q name).bind (onVM m.status.runtimeID reset))
            q.status.appliedMachines = none :=
          eq_none_iff_forall_ne_some.mpr fun c hc =>
            hno ((latest_stale_iff hm _).mp hc).1
        simp [hno, hnone, hheld]
      | false => simp [hheld]
    · rw [if_neg hheld]
      simp [hheld]

theorem turn_blank : turn a s "" q = none := by
  have filtered : ∀ {push : Machine → Push} {ms : List Machine},
      (∀ x ∈ ms, x.status.runtimeID ≠ "") → latest (fun x => onVM "" (push x) x) ms = none :=
    fun h => latest_eq_none_iff.mpr fun x hx => if_neg (h x hx)
  have reached : ∀ x, reaches a.nodeName q x = true → x.status.runtimeID ≠ "" := by
    intro x hx
    simp only [reaches, Bool.and_eq_true, decide_eq_true_eq] at hx
    exact hx.2
  unfold turn
  split
  · split
    · exact filtered fun x hx => reached x (mem_filter.mp hx).2
    · rfl
  · split
    · have hstale : ∀ name, (s.stale a q name).bind (onVM "" reset) = none := by
        intro name
        refine bind_eq_none_iff.mpr fun x hx => if_neg ?_
        obtain ⟨_, hx⟩ := ite_none_left_eq_some.mp hx
        have hx := (filter_eq_some_iff.mp hx).2
        simp only [Bool.and_eq_true, decide_eq_true_eq] at hx
        exact hx.1.2
      rw [latest_eq_none_iff.mpr fun name _ => hstale name, none_or]
      refine filtered fun x hx => ?_
      simp only [Told.targets, mem_filter, Bool.and_eq_true] at hx
      exact reached x hx.2.1
    · rfl

theorem fallback_eq_none (h : ∀ x ∈ s.machines, unmatched a s.policies x = true →
    x.status.runtimeID ≠ id) : fallback a s id = none := by
  unfold fallback
  rw [latest_eq_none_iff.mpr, none_or]
  · split
    · exact latest_eq_none_iff.mpr fun x hx =>
        if_neg (h x (mem_filter.mp hx).1 (mem_filter.mp hx).2)
    · rfl
  · intro x hx
    simp only [mem_filter, Bool.and_eq_true] at hx
    exact if_neg (h x hx.1 hx.2.1.1.1)

end Kairon.Network
