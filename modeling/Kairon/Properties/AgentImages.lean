import Kairon.Cluster.World
import Kairon.Controller.ImageVerify

/-!
# The images of the agent pool

The webhook asks the verifier when a Machine is created. An update may bring a Machine into the
pool, and may give it another image, without a question.

* `PoolAccepted.serve`: one request
* `agent_images_verified`: any requests without such updates
-/

namespace Kairon.Images

open Infra Model Cluster List
open Controller (Admission)

variable {w : ImageWorld} {m : AgentMachine} {s : Submission}

/-- The image of the Machine is from a registry, and the verifier has accepted it. -/
def Accepted (accepted : List (String × String)) (m : AgentMachine) : Prop :=
  ∃ oci, m.image.source = some oci ∧ oci ≠ "" ∧ (oci, m.image.digest) ∈ accepted

def PoolAccepted (w : ImageWorld) : Prop :=
  ∀ m ∈ w.machines.rows, m.agentPool = true → Accepted w.accepted m

theorem Accepted.mono {accepted accepted' : List (String × String)} (h : Accepted accepted m)
    (hsub : accepted ⊆ accepted') : Accepted accepted' m := by
  obtain ⟨oci, hsource, hne, hmem⟩ := h
  exact ⟨oci, hsource, hne, hsub hmem⟩

/-! ## Creation -/

def verifiedIn (h : List (Event VerifyOp.Ans)) : List (String × String) :=
  h.filterMap VerifyOp.accepted

def Establishes (m : AgentMachine) (h : List (Event VerifyOp.Ans)) : Prop :=
  m.agentPool = true → Accepted (verifiedIn h) m

theorem verifyAgentImage_follows (m : AgentMachine) (h : List (Event VerifyOp.Ans)) :
    (verifyAgentImage true m).Follows (fun _ _ => True)
      (fun h r => r = .ok () → Establishes m h) h := by
  unfold verifyAgentImage Establishes
  generalize m.agentPool = pool
  rw [if_neg (by decide)]
  cases pool with
  | false => exact fun _ hpool => absurd hpool Bool.false_ne_true
  | true =>
    rw [if_neg (by decide)]
    cases hsource : m.image.source with
    | none => exact fun hr => absurd hr (by simp)
    | some oci =>
      dsimp only
      split
      · exact fun hr => absurd hr (by simp)
      · next hne =>
        exact ⟨trivial, fun
          | .error _ => fun hr => absurd hr (by simp [Except.mapError])
          | .ok _ => fun _ _ => ⟨oci, hsource, hne, mem_cons_self⟩⟩

theorem validateMachineCreate_follows (v : Verdicts) :
    (validateMachineCreate true v m).Follows (fun _ _ => True)
      (fun h d => d = .allow → Establishes m h) [] := by
  unfold validateMachineCreate
  cases v.earlier with
  | some e =>
    intro hd
    cases hd
  | none =>
    refine (verifyAgentImage_follows m []).bind fun h r hr => ?_
    cases r with
    | error e =>
      intro hd
      cases hd
    | ok u => exact fun _ => hr rfl

/-! ## Requests -/

/-- An update leaves a Machine outside the pool, or leaves it in the pool with its image. -/
def Unchanged (w : ImageWorld) (s : Submission) : Prop :=
  ∀ new, s.request = .update new → new.agentPool = true → ∀ old ∈ w.machines.rows,
    old.key = new.key → old.agentPool = true ∧ old.image = new.image

theorem PoolAccepted.serve (h : PoolAccepted w) (hs : Unchanged w s) :
    PoolAccepted (w.serve true s) := by
  have before : ∀ m ∈ w.machines.rows, m.agentPool = true → Accepted (w.serve true s).accepted m :=
    fun m hm hpool => (h m hm hpool).mono (subset_append_right _ _)
  intro m hm hpool
  dsimp only [ImageWorld.serve] at hm
  split at hm
  · next hallow =>
    cases hr : s.request with
    | create new =>
      rw [hr] at hm hallow
      rcases Table.mem_add hm with hold | rfl
      · exact before m hold hpool
      · have hacc := (validateMachineCreate_follows s.verdicts).answered
          (VerifyOp.answer s.verifier) hallow hpool
        refine hacc.mono ?_
        dsimp only [ImageWorld.serve]
        rw [hr]
        exact subset_append_left _ _
    | update new =>
      rw [hr] at hm
      dsimp only [store, Table.replace] at hm
      rcases Table.mem_edit_iff.mp hm with ⟨hold, -⟩ | ⟨old, hold, hkey, rfl⟩
      · exact before m hold hpool
      · rw [if_pos hkey] at hpool ⊢
        -- the image was accepted when the Machine came to the pool
        obtain ⟨hpool', himage⟩ := hs new hr hpool old hold hkey
        obtain ⟨oci, hsource, hne, hmem⟩ := before old hold hpool'
        rw [himage] at hsource hmem
        exact ⟨oci, hsource, hne, hmem⟩
    | delete k =>
      rw [hr] at hm
      exact before m (mem_filter.mp hm).1 hpool
  · exact before m hm hpool

/-- With a verifier, from no Machines of the pool, through every sequence of requests whose updates
change neither the pool nor its images, every Machine of the pool has an image that the verifier
accepted. -/
theorem agent_images_verified {ss : List Submission}
    (h₀ : ∀ m ∈ w.machines.rows, m.agentPool = false)
    (hs : ∀ before s after, ss = before ++ s :: after → Unchanged (w.serveAll true before) s) :
    PoolAccepted (w.serveAll true ss) := by
  induction ss using List.reverseRecOn with
  | nil =>
    intro m hm hpool
    simp [h₀ m hm] at hpool
  | append_singleton ss s ih =>
    have hlast := hs ss s [] rfl
    rw [ImageWorld.serveAll, foldl_append]
    refine PoolAccepted.serve (ih fun before s' after he => ?_) hlast
    exact hs before s' (after ++ [s]) (by rw [he, append_assoc, cons_append])

/-! ## Updates -/

def poolMachine (pool digest : String) : AgentMachine where
  metadata := { plainMeta "vm" [] with annotations := [(annAgentPool, pool)] }
  image := ⟨some "registry.example/agent", digest⟩

def submit (request : MachineRequest) : Submission where
  request := request
  verifier _ digest := if digest = "sha256:signed" then .ok () else .error "no signature"
  verdicts := ⟨none, none⟩

def noMachines : ImageWorld := ⟨⟨[], nodup_nil⟩, []⟩

/-- A Machine comes to the pool by an update with an image that was never verified, and a Machine of
the pool gets an image that the verifier does not accept. -/
theorem unverified_by_update : ¬PoolAccepted (noMachines.serveAll true
        [submit (.create (poolMachine "" "sha256:other")),
          submit (.update (poolMachine "true" "sha256:other"))]) ∧
      ¬PoolAccepted (noMachines.serveAll true
        [submit (.create (poolMachine "true" "sha256:signed")),
          submit (.update (poolMachine "true" "sha256:other"))]) := by
  have other : ∀ accepted, accepted ⊆ [("registry.example/agent", "sha256:signed")] →
      ¬Accepted accepted (poolMachine "true" "sha256:other") := by
    rintro accepted hsub ⟨oci, -, -, hmem⟩
    have hdigest : "sha256:other" = "sha256:signed" :=
      congrArg Prod.snd (mem_singleton.mp (hsub hmem))
    exact absurd hdigest (by decide)
  constructor
  · intro h
    refine other _ ?_ (h (poolMachine "true" "sha256:other") (by decide +kernel)
      (by decide +kernel))
    decide +kernel
  · intro h
    refine other _ ?_ (h (poolMachine "true" "sha256:other") (by decide +kernel)
      (by decide +kernel))
    decide +kernel

theorem agent_images_verified_create : (poolMachine "true" "sha256:signed") ∈
        (noMachines.serveAll true [submit (.create (poolMachine "true" "sha256:signed")),
          submit (.update (poolMachine "true" "sha256:signed"))]).machines.rows ∧
      PoolAccepted (noMachines.serveAll true [submit (.create (poolMachine "true" "sha256:signed")),
        submit (.update (poolMachine "true" "sha256:signed"))]) := by
  refine ⟨by decide +kernel, agent_images_verified nofun ?_⟩
  intro before s after he new hnew _ old hold _
  match before, he with
  | [], he =>
    cases he
    cases hnew
  | [_], he =>
    cases he
    cases hnew
    revert old
    decide +kernel
  | _ :: _ :: before, he =>
    have := congrArg List.length he
    simp at this

end Kairon.Images
