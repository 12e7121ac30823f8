import Kairon.Infra.GoText

/-!
# iSCSI volumes

What the controller and the node plugin share: the identity of a target and LUN, the volume ids
that carry it, and the errors of a CSI call.
-/

namespace Kairon.Csi

open Infra.GoText

inductive Code where
  | invalidArgument
  | notFound
  | internal

structure Status where
  code : Code
  message : String

def invalidArgument {α : Type} (message : String) : Except Status α :=
  .error ⟨.invalidArgument, message⟩

def notFound {α : Type} (message : String) : Except Status α := .error ⟨.notFound, message⟩

def internal {α : Type} (message : String) : Except Status α := .error ⟨.internal, message⟩

/-! ## Volume context -/

abbrev StringMap := List (String × String)

def StringMap.value (m : StringMap) (key : String) : String := (m.lookup key).getD ""

def volumeAttrPortal := "portal"
def volumeAttrIQN := "iqn"
def volumeAttrLUN := "lun"
def secretKeyUsername := "username"
def secretKeyPassword := "password"
def defaultLUN := "0"
def defaultFSType := "ext4"

structure IscsiConfig where
  portal : String
  iqn : String
  lun : String
  fsType : String := ""
  username : String := ""
  password : String := ""

def parseISCSIConfig (volumeContext secrets : StringMap) : Except String IscsiConfig :=
  let portal := volumeContext.value volumeAttrPortal
  let iqn := volumeContext.value volumeAttrIQN
  if portal = "" ∨ iqn = "" then
    .error ("volume_context must set " ++ quote volumeAttrPortal ++ " and " ++
      quote volumeAttrIQN ++ " for Kairon's iSCSI driver")
  else
    let lun := volumeContext.value volumeAttrLUN
    let lun := if lun = "" then defaultLUN else lun
    match atoi lun with
    | none => .error ("volume_context " ++ quote volumeAttrLUN ++
        " must be an integer LUN number, got " ++ quote lun)
    | some _ => .ok
      { portal, iqn, lun, fsType := defaultFSType,
        username := secrets.value secretKeyUsername, password := secrets.value secretKeyPassword }

/-! ## Volume ids -/

def iscsiVolumeIDPrefix := "iscsi"

def encodeVolumeID (cfg : IscsiConfig) : String :=
  "|".intercalate [iscsiVolumeIDPrefix, cfg.portal, cfg.iqn, cfg.lun]

def decodeVolumeID (id : String) : Except String IscsiConfig :=
  let invalid := .error ("volume_id " ++ quote id ++
    " is not a Kairon iSCSI volume handle (expected " ++ quote "iscsi|<portal>|<iqn>|<lun>" ++ ")")
  match split id '|' with
  | [start, portal, iqn, lun] =>
    if start ≠ iscsiVolumeIDPrefix then invalid else .ok { portal, iqn, lun }
  | _ => invalid

/-- Accepted are the encodings of fields without `|`, and nothing else. -/
theorem decodeVolumeID_eq_ok_iff {id cfg} : decodeVolumeID id = .ok cfg ↔
    id = encodeVolumeID cfg ∧ (∀ part ∈ [cfg.portal, cfg.iqn, cfg.lun], '|' ∉ part.toList) ∧
      cfg = { portal := cfg.portal, iqn := cfg.iqn, lun := cfg.lun } := by
  constructor
  · intro h
    unfold decodeVolumeID at h
    split at h
    · next start portal iqn lun hsplit =>
      obtain ⟨-, ⟨⟩⟩ | ⟨hstart, ⟨⟩⟩ := ite_eq_iff.mp h
      have hjoin := congrArg (fun parts => ['|'].intercalate (parts.map String.toList)) hsplit
      simp only [split, List.map_map, Function.comp_def, String.toList_ofList, List.map_id',
        List.intercalate_splitOn] at hjoin
      refine ⟨String.toList_inj.mp ?_, fun part hpart => not_mem_of_mem_split (s := id) ?_, rfl⟩
      · rw [encodeVolumeID, String.toList_intercalate, hjoin, not_not.mp hstart]
        rfl
      · exact hsplit ▸ List.mem_cons_of_mem _ hpart
    · cases h
  · rintro ⟨rfl, hparts, hcfg⟩
    have hsplit : split (encodeVolumeID cfg) '|' =
        [iscsiVolumeIDPrefix, cfg.portal, cfg.iqn, cfg.lun] :=
      split_join (by simp) (List.forall_mem_cons.mpr ⟨by decide, hparts⟩) String.toList_intercalate
    simp [decodeVolumeID, hsplit, ← hcfg]

/-! ## Names -/

def iqnPrefix := "iqn.2026-01.dev.zyvor.kairon:"

def volumeNamePattern (name : String) : Bool :=
  let alnum := fun c : Char => c.isLower || c.isDigit
  match name.toList with
  | [] => false
  | c :: cs => alnum c && decide (cs.length ≤ 62) && cs.all fun c => alnum c || c == '-'

def volumeNamePatternText := "^[a-z0-9][a-z0-9-]\x7b0,62\x7d$"

def nameFromIQN (iqn : String) : Option String := cutPrefix iqn iqnPrefix

def volumeName (id : String) : Option String :=
  match decodeVolumeID id with
  | .error _ => none
  | .ok cfg => nameFromIQN cfg.iqn

theorem volumeName_eq {id name : String} {cfg : IscsiConfig} (hid : decodeVolumeID id = .ok cfg)
    (hname : nameFromIQN cfg.iqn = some name) : volumeName id = some name := by
  rwa [volumeName, hid]

end Kairon.Csi
