import Kairon.Csi.Node

/-!
# Sessions that volumes share

A volume is a LUN of a target, and all LUNs of a target are used over one session. Unstaging a
volume logs out of its target, whatever else is staged from there.

* `nodeUnstageVolume_keeps`, `nodeUnstageVolume_logs_out`: the other sessions and its own
* `unstage_undisturbed_iff`: when no other volume loses its session
-/

namespace Kairon.Csi

open Infra List

structure Volume where
  portal : String
  iqn : String
  lun : String
  deriving DecidableEq

def Volume.session (v : Volume) : String × String := (v.portal, v.iqn)

def IscsiConfig.volume (cfg : IscsiConfig) : Volume := ⟨cfg.portal, cfg.iqn, cfg.lun⟩

def volumeOf (id : String) : Option Volume :=
  match decodeVolumeID id with
  | .ok cfg => some cfg.volume
  | .error _ => none

variable (us : List (Volume × String))

def stageOrUnstage (e : Entry NodeState NodeCall.Res) : List (Volume × String) :=
  if e.call.succeeded e.result then
    match e.call with
    | .stage req =>
      match NodeServer.stageConfig req with
      | .ok cfg => (cfg.volume, req.stagingTargetPath) :: us
      | .error _ => us
    | .unstage id path => us.filter fun u => ¬(volumeOf id = some u.1 ∧ u.2 = path)
    | _ => us
  else us

def stagedBy (es : List (Entry NodeState NodeCall.Res)) : List (Volume × String) :=
  es.foldl stageOrUnstage []

def Undisturbed (id : String) (w w' : NodeState) : Prop :=
  ∀ u ∈ us, volumeOf id ≠ some u.1 → u.1.session ∈ w.sessions → u.1.session ∈ w'.sessions

/-- The call is refused, or stops at a path that looks mounted and cannot be unmounted, or no other
volume is staged over the session of this one. -/
def AloneOnSession (w : NodeState) (id path : String) : Prop :=
  path = "" ∨ (isMountPointFromReader w.mountinfo path = true ∧ w.topAt path = none) ∨
    ∀ v, volumeOf id = some v → v.session ∈ w.sessions → ∀ u ∈ us, u.1 ≠ v → u.1.session ≠ v.session

variable {s : NodeServer} {w w₀ w' : NodeState} {es : List (Entry NodeState NodeCall.Res)}
  {us : List (Volume × String)} {id path : String} {command : NodeCommand}
  {harmless : String → Bool} {what : String}

theorem orInternalNode_keeps {α : Type} {P : NodeState → Prop} {p : NodeM (Except String α)}
    (hp : p.Keeps nodeService (fun _ => True) (fun w' _ => P w') w) :
    (orInternalNode p what).Keeps nodeService (fun _ => True) (fun w' _ => P w') w := by
  refine Prog.Keeps.bind hp fun w' r _ h => ?_
  match r with
  | .ok _ => exact ⟨trivial, h⟩
  | .error _ => exact ⟨trivial, h⟩

theorem attemptNode_keeps {P : NodeState → Prop} (h : ∀ a, ∀ w' ∈ w.ran command a, P w') :
    (attemptNode command harmless what).Keeps nodeService (fun _ => True) (fun w' _ => P w') w := by
  refine ⟨trivial, fun a w' hw' => ?_⟩
  match a with
  | .ok _ => exact ⟨trivial, h _ w' hw'⟩
  | .error _ => exact ⟨trivial, h _ w' hw'⟩

theorem logout_keeps (w : NodeState) (cfg : IscsiConfig) (what : String) :
    (orInternalNode (logout cfg) what).Keeps nodeService (fun _ => True) (fun w' _ =>
      w'.sessions = w.sessions ∨ w'.sessions = w.sessions.filter (· ≠ cfg.volume.session)) w := by
  refine orInternalNode_keeps (Prog.Keeps.andThen (attemptNode_keeps fun a w₁ h₁ => ?_)
    (fun _ _ _ h => h) fun w₁ _ _ h₁ => attemptNode_keeps fun a w₂ h₂ => ?_)
  · match a with
    | .ok _ =>
      obtain rfl := mem_singleton.mp h₁
      exact .inr rfl
    | .error _ =>
      obtain ⟨_, h₁⟩ := mem_ite_nil_left.mp h₁
      obtain rfl := mem_singleton.mp h₁
      exact .inl rfl
  · obtain rfl := mem_singleton.mp h₂
    exact h₁

theorem nodeUnstageVolume_keeps (w : NodeState) (id path : String) :
    (NodeServer.nodeUnstageVolume id path).Keeps nodeService (fun _ => True) (fun w' _ =>
      w'.sessions = w.sessions ∨
        path ≠ "" ∧ (isMountPointFromReader w.mountinfo path = true → w.topAt path ≠ none) ∧
          ∃ v, volumeOf id = some v ∧ w'.sessions = w.sessions.filter (· ≠ v.session)) w := by
  unfold NodeServer.nodeUnstageVolume
  split
  · exact ⟨trivial, .inl rfl⟩
  split
  · exact ⟨trivial, .inl rfl⟩
  next hpath =>
  -- the sessions stay the same until the logout
  have hlookup : (orInternalNode (isMountPoint path) "check staging path: ").Keeps nodeService
      (fun _ => True) (fun w' r => w' = w ∧
        ∀ b, r = .ok b → b = isMountPointFromReader w.mountinfo path) w := by
    refine ⟨trivial, fun a w' h => ?_⟩
    match a with
    | .error _ =>
      obtain rfl := mem_singleton.mp h
      exact ⟨trivial, rfl, nofun⟩
    | .ok lines =>
      obtain ⟨hlines, h⟩ := mem_ite_nil_right.mp h
      obtain rfl := mem_singleton.mp h
      exact ⟨trivial, rfl, fun b hb => by cases hb; rw [hlines]⟩
  have hunmount : ∀ mounted : Bool, (mounted = isMountPointFromReader w.mountinfo path) →
      (if mounted = true then orInternalNode (.call (.unmount path) .ret)
          ("unmount " ++ path ++ ": ")
        else .ret (.ok ()) : NodeM (Except Status Unit)).Keeps nodeService (fun _ => True)
        (fun w' r => w'.sessions = w.sessions ∧
          (r = .ok () → isMountPointFromReader w.mountinfo path = true → w.topAt path ≠ none))
        w := by
    intro mounted hmounted
    split
    · refine ⟨trivial, fun a w' h => ?_⟩
      match a with
      | .error _ =>
        obtain rfl := mem_singleton.mp h
        exact ⟨trivial, rfl, nofun⟩
      | .ok () =>
        obtain ⟨htop, h⟩ := mem_ite_nil_left.mp h
        obtain rfl := mem_singleton.mp h
        exact ⟨trivial, rfl, fun _ _ => by simpa using htop⟩
    · next hnot => exact ⟨trivial, rfl, fun _ h => absurd (hmounted.trans h) hnot⟩
  refine Prog.Keeps.andThen hlookup (fun w₁ _ _ h => .inl (by rw [h.1])) fun w₁ mounted _ h₁ => ?_
  obtain ⟨rfl, hmounted⟩ := h₁
  refine Prog.Keeps.andThen (hunmount mounted (hmounted mounted rfl)) (fun w₂ _ _ h => .inl h.1)
    fun w₂ _ _ h₂ => ?_
  split
  · exact ⟨trivial, .inl h₂.1⟩
  · next cfg hid =>
    refine (logout_keeps w₂ cfg _).mono fun w₃ _ _ h₃ => ?_
    rcases h₃ with h₃ | h₃
    · exact .inl (h₃.trans h₂.1)
    · refine .inr ⟨hpath, h₂.2 rfl, cfg.volume, by rw [volumeOf, hid], ?_⟩
      rw [h₃, h₂.1]

theorem nodeUnstageVolume_logs_out {v : Volume} (hpath : path ≠ "") (hid : volumeOf id = some v)
    (hmount : isMountPointFromReader w.mountinfo path = true → w.topAt path ≠ none) :
    ∃ r w', (NodeServer.nodeUnstageVolume id path).Reaches nodeService w w' (.ret r) ∧
      w'.sessions = w.sessions.filter (· ≠ v.session) := by
  have hne : id ≠ "" := by
    rintro rfl
    simp [show volumeOf "" = none by decide] at hid
  unfold volumeOf at hid
  split at hid
  · next cfg hcfg =>
    cases hid
    have hlookup : (orInternalNode (isMountPoint path) "check staging path: ").Reaches nodeService w
        w (.ret (.ok (isMountPointFromReader w.mountinfo path))) := by
      refine .call (a := .ok w.mountinfo) ?_ .refl
      change w ∈ w.outcomes _ _
      simp [NodeState.outcomes]
    obtain ⟨w₁, hsame, hunmount⟩ : ∃ w₁ : NodeState, w₁.sessions = w.sessions ∧
        (if isMountPointFromReader w.mountinfo path = true then
            orInternalNode (.call (.unmount path) .ret) ("unmount " ++ path ++ ": ")
          else .ret (.ok ()) : NodeM (Except Status Unit)).Reaches nodeService w w₁
          (.ret (.ok ())) := by
      split
      · next hmounted =>
        refine ⟨{ w with mounts := w.mounts.eraseP (·.target = GoPath.clean path) }, rfl,
          .call (a := .ok ()) ?_ .refl⟩
        change _ ∈ w.outcomes _ _
        simp [NodeState.outcomes, hmount hmounted]
      · exact ⟨w, rfl, .refl⟩
    have hlogout : (orInternalNode (logout cfg) "iscsi logout: ").Reaches nodeService w₁
        { w₁ with sessions := w₁.sessions.filter (· ≠ cfg.volume.session) } (.ret (.ok ())) := by
      refine .call (a := Except.ok "") (mem_singleton.mpr rfl) ?_
      exact .call (e := NodeOp.run (.deleteRecord cfg.iqn cfg.portal)) (a := Except.ok "")
        (mem_singleton.mpr rfl) .refl
    refine ⟨.ok (), { w₁ with sessions := w₁.sessions.filter (· ≠ cfg.volume.session) }, ?_,
      by rw [hsame]⟩
    unfold NodeServer.nodeUnstageVolume
    rw [if_neg hne, if_neg hpath, hcfg]
    exact hlookup.andThen (hunmount.andThen hlogout)
  · cases hid

/-- After every history of calls, whatever the commands answer, unstaging a volume leaves the
sessions of the other staged volumes alone exactly if none of them shares its session. -/
theorem unstage_undisturbed_iff (hsession : NodeSession s w₀ es w) (id path : String) :
    (∀ r w', NodeSession s w₀ (es ++ [⟨w, .unstage id path, r, w'⟩]) w' →
        Undisturbed (stagedBy es) id w w') ↔
      AloneOnSession (stagedBy es) w id path := by
  constructor
  · intro h
    by_contra halone
    simp only [AloneOnSession, not_or, not_forall, not_and] at halone
    obtain ⟨hpath, hmount, v, hid, hlogged, u, hu, hne, hshared⟩ := halone
    obtain ⟨r, w', hran, hsessions⟩ := nodeUnstageVolume_logs_out hpath hid hmount
    have hkept := h r w' (.call hsession hran) u hu (by simpa [hid] using Ne.symm hne)
    rw [not_not.mp hshared, hsessions] at hkept
    simpa using hkept hlogged
  · intro halone r w' hsession' u hu hother hused
    obtain ⟨-, hentries⟩ := hsession'.entry (Session.Invariant.true _ _ _) trivial
    obtain ⟨-, hran⟩ := hentries ⟨w, .unstage id path, r, w'⟩ (by simp)
    rcases (Prog.Reaches.keeps hran (nodeUnstageVolume_keeps w id path)).2 with
      hsame | ⟨hpath, hmount, v, hid, hsessions⟩
    · rwa [show w'.sessions = w.sessions from hsame]
    · have hdiffers : u.1.session ≠ v.session := by
        rcases halone with he | ⟨hmounted, htop⟩ | hnone
        · exact absurd he hpath
        · exact absurd htop (hmount hmounted)
        · intro hshared
          exact hnone v hid (hshared ▸ hused) u hu
            (fun he => hother (by rw [hid, he])) hshared
      rw [show w'.sessions = _ from hsessions]
      exact mem_filter.mpr ⟨hused, by simpa using hdiffers⟩

def stageLun (iqn lun path : String) : NodeCall :=
  .stage
    { volumeId := "iscsi|10.0.0.1:3260|" ++ iqn ++ "|" ++ lun
      stagingTargetPath := path
      mount := some ""
      volumeContext := [("portal", "10.0.0.1:3260"), ("iqn", iqn), ("lun", lun)] }

instance : DecidableEq (NodeCall × Bool × List (String × String)) := inferInstance

/-- Both LUNs of a target are staged; unstaging the first logs out of it. -/
theorem second_lun_cut_off : ∃ es w, NodeSession ⟨100⟩ ⟨[], []⟩ es w ∧
      es.map (fun e => (e.call, e.call.succeeded e.result, e.after.sessions)) =
        [(stageLun "iqn.t" "0" "/staging/0", true, [("10.0.0.1:3260", "iqn.t")]),
          (stageLun "iqn.t" "1" "/staging/1", true, [("10.0.0.1:3260", "iqn.t")]),
          (.unstage "iscsi|10.0.0.1:3260|iqn.t|0" "/staging/0", true, [])] ∧
      stagedBy es = [(⟨"10.0.0.1:3260", "iqn.t", "1"⟩, "/staging/1")] := by
  exact exists_session_of_play
    [(stageLun "iqn.t" "0" "/staging/0", serveNode),
      (stageLun "iqn.t" "1" "/staging/1", serveNode),
      (.unstage "iscsi|10.0.0.1:3260|iqn.t|0" "/staging/0", serveNode)] (by decide +kernel)

def twoTargets : List (Volume × String) :=
  [(⟨"10.0.0.1:3260", "iqn.u", "0"⟩, "/staging/1"), (⟨"10.0.0.1:3260", "iqn.t", "0"⟩, "/staging/0")]

theorem only_lun_unstaged : ∃ es w, NodeSession ⟨100⟩ ⟨[], []⟩ es w ∧ stagedBy es = twoTargets ∧
      ∀ r w', NodeSession ⟨100⟩ ⟨[], []⟩
          (es ++ [⟨w, .unstage "iscsi|10.0.0.1:3260|iqn.t|0" "/staging/0", r, w'⟩]) w' →
        Undisturbed (stagedBy es) "iscsi|10.0.0.1:3260|iqn.t|0" w w' := by
  obtain ⟨es, w, hsession, hstaged⟩ : ∃ es w, NodeSession ⟨100⟩ ⟨[], []⟩ es w ∧
      stagedBy es = twoTargets :=
    exists_session_of_play [(stageLun "iqn.t" "0" "/staging/0", serveNode),
      (stageLun "iqn.u" "0" "/staging/1", serveNode)] (by decide +kernel)
  refine ⟨es, w, hsession, hstaged, (unstage_undisturbed_iff hsession _ _).mpr (.inr (.inr ?_))⟩
  intro v hv _ u hu hne
  have hvolume : volumeOf "iscsi|10.0.0.1:3260|iqn.t|0" = some ⟨"10.0.0.1:3260", "iqn.t", "0"⟩ := by
    decide +kernel
  cases hvolume.symm.trans hv
  rw [hstaged] at hu
  rcases mem_pair.mp hu with rfl | rfl
  · decide
  · exact absurd rfl hne

end Kairon.Csi
