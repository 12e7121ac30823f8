import Kairon.Csi.Node

/-!
# Read-only volumes

A read-only volume is published by a bind mount and a remount. A retry asks only whether something
is mounted at the target, not whether it is read-only.

* `nodePublishVolume_ensures`: what a publish leaves at the target
* `readonly_published_iff`: which of them left it read-only
-/

namespace Kairon.Csi

open Infra List

def readonlyKept (w' : NodeState) : (c : NodeCall) → c.Res → Bool
  | .publish req, .ok _ => !req.readonly || w'.readonlyAt req.targetPath
  | _, _ => true

/-- A volume that is to be read-only is published where nothing is found to be mounted, or something
read-only is. -/
def freshOrReadonly (w : NodeState) : NodeCall → Bool
  | .publish req => !req.readonly || !isMountPointFromReader w.mountinfo req.targetPath ||
      w.readonlyAt req.targetPath
  | _ => true

variable {s : NodeServer} {w w₀ w' : NodeState} {es : List (Entry NodeState NodeCall.Res)}
  {req : NodePublishVolumeRequest}

theorem readonlyAt_of_remounted {source target : String}
    (h : w' ∈ w.mounted source target (bindMountFlag ||| bindRemountFlag ||| bindReadOnlyFlag)) :
    w'.readonlyAt target = true := by
  obtain ⟨htop, h⟩ := List.mem_ite_nil_left.mp h
  rw [if_pos (by decide)] at h
  obtain rfl := List.mem_singleton.mp h
  obtain ⟨m, hm⟩ := Option.ne_none_iff_exists'.mp
    (show w.topAt target ≠ none by simpa using htop)
  simp only [NodeState.readonlyAt, NodeState.topAt, find_remountFirst]
  rw [show w.mounts.find? (·.target = GoPath.clean target) = some m from hm]
  rfl

/-- What a `NodePublishVolume` that succeeded has done: nothing where something is mounted, and
otherwise what was asked for. -/
theorem nodePublishVolume_ensures (w : NodeState) (req : NodePublishVolumeRequest) :
    (NodeServer.nodePublishVolume req).Ensures nodeService (fun _ => True) (fun w' _ =>
      (isMountPointFromReader w.mountinfo req.targetPath = true ∧ w' = w) ∨
        isMountPointFromReader w.mountinfo req.targetPath = false ∧
          (req.readonly = true → w'.readonlyAt req.targetPath = true)) w := by
  unfold NodeServer.nodePublishVolume
  split
  · exact .error trivial _
  split
  · exact .error trivial _
  split
  · exact .error trivial _
  refine (isMountPoint_ensures req.targetPath _).andThen fun w₁ already _ h => ?_
  obtain ⟨rfl, rfl⟩ := h
  split
  · next hmounted => exact .ok trivial (.inl ⟨hmounted, rfl⟩)
  next hfree =>
  have hfree : isMountPointFromReader w₁.mountinfo req.targetPath = false := by simpa using hfree
  refine (mkdirAll_ensures _ _).andThen fun w₂ _ _ h₂ => ?_
  refine (mount_ensures _ _ _ _ _).andThen fun w₃ _ _ h₃ => ?_
  split
  · refine (mount_ensures _ _ _ _ _).mono fun w₄ _ _ h₄ => ?_
    exact .inr ⟨hfree, fun _ => readonlyAt_of_remounted h₄⟩
  · next hwritable => exact .ok trivial (.inr ⟨hfree, fun h => absurd h hwritable⟩)

/-- Of the calls of a session that have succeeded, those that left a read-only target as it was
asked for are those that found nothing mounted there, or something read-only. -/
theorem readonly_published_iff (hsession : NodeSession s w₀ es w) :
    (∀ e ∈ es, readonlyKept e.after e.call e.result = true) ↔
      ∀ e ∈ es, e.call.succeeded e.result = true → freshOrReadonly e.before e.call = true := by
  obtain ⟨-, hentries⟩ := hsession.entry (Session.Invariant.true _ _ _) trivial
  refine forall₂_congr fun e he => ?_
  obtain ⟨-, hran⟩ := hentries e he
  obtain ⟨before, call, result, after⟩ := e
  match call, result with
  | .publish req, .ok () =>
    simp only [readonlyKept, freshOrReadonly, NodeCall.succeeded, true_imp_iff]
    rcases Prog.Reaches.ensures hran (nodePublishVolume_ensures before req) with
      ⟨hmounted, hsame⟩ | ⟨hfree, hreadonly⟩
    · obtain rfl : after = before := hsame
      simp [hmounted]
    · cases hr : req.readonly with
      | false => simp
      | true => simp [hfree, hreadonly hr]
  | .publish req, .error err => simp [readonlyKept, NodeCall.succeeded]
  | .stage _, _ | .unstage _ _, _ | .unpublish _ _, _ | .expand _ _, _ | .getStats _ _, _ =>
    simp [readonlyKept, freshOrReadonly]

def failRemount : Oracle NodeOp.Ans NodeState := fun w e =>
  match e with
  | .mount source target fsType flags =>
    if flags &&& bindRemountFlag ≠ 0 then (.error "invalid argument", 0)
    else serveNode w (.mount source target fsType flags)
  | e => serveNode w e

def staged : NodeState := ⟨[⟨"/dev/sdb", "/staging", false⟩], [("10.0.0.1:3260", "iqn.t")]⟩

def publishAt (readonly : Bool) : NodeCall :=
  .publish ⟨"iscsi|10.0.0.1:3260|iqn.t|0", "/staging", "/pods/1", readonly⟩

/-- The remount of a read-only volume fails, and a retry finds the bind mount. -/
theorem retry_leaves_writable : ∃ es w, NodeSession ⟨100⟩ staged es w ∧
      es.map (fun e => (e.call, e.call.succeeded e.result)) =
        [(publishAt true, false), (publishAt true, true)] ∧
      w.topAt "/pods/1" = some ⟨"/staging", "/pods/1", false⟩ := by
  exact exists_session_of_play [(publishAt true, failRemount), (publishAt true, serveNode)]
    (by decide +kernel)

theorem published_twice_readonly : ∃ es w, NodeSession ⟨100⟩ staged es w ∧
      es.map (fun e => (e.call, e.call.succeeded e.result)) =
        [(publishAt true, true), (publishAt true, true)] ∧
      ∀ e ∈ es, readonlyKept e.after e.call e.result = true := by
  obtain ⟨es, w, hsession, hresults, hfresh⟩ : ∃ es w, NodeSession ⟨100⟩ staged es w ∧
      es.map (fun e => (e.call, e.call.succeeded e.result)) =
        [(publishAt true, true), (publishAt true, true)] ∧
      ∀ e ∈ es, freshOrReadonly e.before e.call = true :=
    exists_session_of_play [(publishAt true, serveNode), (publishAt true, serveNode)]
      (by decide +kernel)
  exact ⟨es, w, hsession, hresults, (readonly_published_iff hsession).mpr fun e he _ => hfresh e he⟩

end Kairon.Csi
