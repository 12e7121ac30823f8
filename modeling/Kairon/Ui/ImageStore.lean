import Mathlib.Data.List.Sort
import Kairon.Infra.Table
import Kairon.Infra.Play
import Kairon.Ui.Images

/-!
# The files of the image store

The blobs, the files of uploads under way, and the directory of names, with requests side by side on
them. A request may end anywhere, when the server is stopped.
-/

namespace Kairon.Ui

open Infra

/-- The files of the directory `names`: `name.json` and `.name.tmp`. A name begins with a letter or
digit, so the two are never the same. -/
inductive NamesFile where
  | entry (name : String)
  | temp (name : String)
  deriving DecidableEq

abbrev ImageRequest := Nat × ImageCall

structure ImageStore (α : Type) where
  blobs : List String
  uploads : List ImageRequest
  names : Dir NamesFile α

variable {α : Type}

variable (w : ImageStore α)

section Host

variable [DecidableEq α]

namespace ImageStore

/-- The names that `ReadDir` gives, by the names of the files. -/
def entryNames : List String :=
  (w.names.files.rows.filterMap fun
    | (.entry name, _) => some name
    | _ => none).insertionSort fun a b => a ++ ".json" ≤ b ++ ".json"

def mayRead (w : ImageStore α) (name : String) : FileRead α → Bool
  | .ok text => w.names.read (.entry name) = some text
  | .notExist => w.names.find (.entry name) = none
  | .failed _ => true

def mayCopy (body : String) (limit : Int) : Copied → Bool
  | .ok => limit ≤ 0 ∨ (body.utf8ByteSize : Int) ≤ limit
  | .tooBig => 0 < limit ∧ limit < (body.utf8ByteSize : Int)
  | .failed _ => true

def mayStat (hex : String) : FileStat → Bool
  | .found => hex ∈ w.blobs
  | .notExist => hex ∉ w.blobs
  | .failed _ => true

def mayList : DirRead → Bool
  | .ok names => names = w.entryNames
  | .notExist => w.names.files.rows.isEmpty
  | .failed _ => true

def outcomes (r : ImageRequest) (w : ImageStore α) : (e : ImageOp α) → e.Ans → List (ImageStore α)
  | .readEntry name, got => if w.mayRead name got then [w] else []
  | .mkdirBlobs, _ | .mkdirNames, _ | .timeNow, _ => [w]
  | .createUpload, failed =>
    match failed with
    | none => [{ w with uploads := r :: w.uploads }]
    | some _ => [w]
  | .copy body limit, copied => if mayCopy body limit copied then [w] else []
  | .removeUpload, _ => [{ w with uploads := w.uploads.erase r }, w]
  | .statBlob hex, stat => if w.mayStat hex stat then [w] else []
  | .renameBlob hex, failed =>
    match failed with
    | none => [{ w with blobs := hex :: w.blobs, uploads := w.uploads.erase r }]
    | some _ => [w]
  | .openTemp name, opened =>
    match opened with
    | .ok file =>
      if file = (w.names.create (.temp name)).2 then
        [{ w with names := (w.names.create (.temp name)).1 }]
      else []
    | .error _ => [w]
  | .writeTemp file text, written =>
    match written with
    | .ok => [{ w with names := w.names.write file text }]
    | .failed letters _ => [{ w with names := w.names.write file (text.take letters) }]
  | .renameEntry name, failed =>
    match failed with
    | none =>
      if (w.names.find (.temp name)).isSome then
        [{ w with names := w.names.rename (.temp name) (.entry name) }]
      else []
    | some _ => [w]
  | .removeEntry name, failed =>
    match failed with
    | none =>
      if (w.names.find (.entry name)).isSome then
        [{ w with names := w.names.remove (.entry name) }]
      else []
    | some _ => [w]
  | .readDir, got => if w.mayList got then [w] else []
  | .removeBlob hex, _ => [{ w with blobs := w.blobs.filter (· ≠ hex) }, w]

end ImageStore

def imageHost (J : ImageLibraries α) (a : ImageSettings) :
    Host (ImageAns α) ImageReply ImageRequest (ImageStore α) where
  outcomes := ImageStore.outcomes
  start r p := p = r.2.code J a
  env _ _ := False
  crash := True

end Host

/-! ## What a request has done -/

def ImageCall.uploadsTo : ImageCall → Option String
  | upload u => some u.name
  | _ => none

def secured : ImagePast α → Option String
  | [] => none
  | ⟨.statBlob hex, stat⟩ :: _ => if stat = FileStat.notExist then none else some hex
  | ⟨.renameBlob hex, failed⟩ :: _ => if failed = none then some hex else none
  | ⟨.renameEntry _, _⟩ :: _ => none
  | _ :: past => secured past

def openFile : ImagePast α → Option Nat
  | [] => none
  | ⟨.openTemp _, .ok file⟩ :: _ => some file
  | ⟨.renameEntry _, _⟩ :: _ => none
  | _ :: past => openFile past

def openText : ImagePast α → List α
  | [] => []
  | ⟨.openTemp _, .ok _⟩ :: _ => []
  | ⟨.writeTemp _ text, .ok⟩ :: past => Dir.overwrite text (openText past)
  | ⟨.writeTemp _ text, .failed letters _⟩ :: past =>
    Dir.overwrite (text.take letters) (openText past)
  | _ :: past => openText past

variable (J : ImageLibraries α)

def ImageRule (r : ImageRequest) (past : ImagePast α) : ImageOp α → Prop
  | .openTemp name => r.2.uploadsTo = some name ∧ openFile past = none
  | .writeTemp file _ => ∃ name older, past = ⟨.openTemp name, .ok file⟩ :: older
  | .renameEntry name => r.2.uploadsTo = some name ∧ ∃ file img older,
      past = ⟨.writeTemp file (J.marshal img), .ok⟩ :: ⟨.openTemp name, .ok file⟩ :: older ∧
        secured older = some img.hex
  | _ => True

variable {J} {a : ImageSettings}

theorem readImageEntry_follows (r : ImageRequest) (name : String) (past : ImagePast α) :
    (readImageEntry J name).Follows (ImageRule J r)
      (fun past' _ => openFile past' = openFile past) past := by
  refine ⟨trivial, fun | .notExist => rfl | .failed _ => rfl | .ok text => ?_⟩
  dsimp only
  split <;> exact rfl

theorem listImageEntries_follows (r : ImageRequest) (past : ImagePast α) :
    (listImageEntries J).Follows (ImageRule J r) (fun _ _ => True) past := by
  have hentries : ∀ names past, (readEntries J names).Follows (ImageRule J r) (fun _ _ => True)
      past := by
    intro names
    induction names with
    | nil => exact fun past => trivial
    | cons name names ih =>
      exact fun past => (readImageEntry_follows r name past).bind fun past' _ _ =>
        (ih past').bind fun _ _ _ => trivial
  exact ⟨trivial, fun
    | .notExist => trivial
    | .failed _ => trivial
    | .ok names => (hentries names _).bind fun _ _ _ => trivial⟩

theorem pointName_follows (k : Nat) (u : Upload) {past : ImagePast α}
    (hsecured : secured past = some (J.sha256Hex u.body)) (hopen : openFile past = none) :
    (pointName J a u).Follows (ImageRule J (k, .upload u)) (fun _ _ => True) past := by
  refine ⟨trivial, fun now => ?_⟩
  have hwrite : ∀ img : UploadedImage, img.name = u.name → img.hex = J.sha256Hex u.body →
      (writeImageEntry J img).Follows (ImageRule J (k, .upload u)) (fun _ _ => True)
        (⟨.timeNow, now⟩ :: past) := by
    intro img hname hhex
    refine ⟨trivial, fun | some _ => trivial | none => ?_⟩
    refine ⟨⟨congrArg some hname.symm, hopen⟩, fun | .error _ => trivial | .ok file => ?_⟩
    refine ⟨⟨_, _, rfl⟩, fun | .failed _ _ => trivial | .ok => ?_⟩
    refine ⟨⟨congrArg some hname.symm, file, img, _, rfl, ?_⟩, fun _ => trivial⟩
    exact hsecured.trans (congrArg some hhex.symm)
  refine (hwrite _ rfl ?_).bind fun past' failed _ => ?_
  · rw [UploadedImage.hex, GoText.cutPrefix_append, Option.getD_some]
  · cases failed <;> trivial

theorem storeUpload_follows (k : Nat) (u : Upload) {past : ImagePast α}
    (hopen : openFile past = none) :
    (storeUpload J a u).Follows (ImageRule J (k, .upload u)) (fun _ _ => True) past := by
  refine ⟨trivial, fun | .tooBig => trivial | .failed _ => trivial | .ok => ?_⟩
  dsimp only
  split
  · trivial
  split
  · trivial
  refine ⟨trivial, fun
    | .notExist => ?_
    | .found => pointName_follows k u rfl hopen
    | .failed _ => pointName_follows k u rfl hopen⟩
  exact ⟨trivial, fun | some _ => trivial | none => pointName_follows k u rfl hopen⟩

theorem image_code_follows (r : ImageRequest) :
    (r.2.code J a).Follows (ImageRule J r) (fun _ _ => True) [] := by
  obtain ⟨k, call⟩ := r
  cases call with
  | upload u =>
    show Prog.Follows _ _ _ (handleUploadImage J a u)
    unfold handleUploadImage
    split
    · trivial
    split
    · trivial
    split
    · trivial
    split
    · trivial
    refine (readImageEntry_follows _ _ _).bind fun past entry hpast => ?_
    have hopen : openFile past = none := hpast
    split
    · trivial
    refine ⟨trivial, fun | some _ => trivial | none => ?_⟩
    refine ⟨trivial, fun | some _ => trivial | none => ?_⟩
    have hopen' : openFile (⟨.createUpload, none⟩ :: ⟨.mkdirBlobs, none⟩ :: past) = none :=
      hopen
    refine (storeUpload_follows k u hopen').bind fun past' reply _ => ?_
    exact ⟨trivial, fun _ => trivial⟩
  | delete name admin =>
    show Prog.Follows _ _ _ (handleDeleteImage J a name admin)
    unfold handleDeleteImage
    split
    · trivial
    split
    · trivial
    split
    · trivial
    refine (readImageEntry_follows _ _ _).bind fun past entry _ => ?_
    rcases entry with (_ | e) | img
    · trivial
    · trivial
    · refine ⟨trivial, fun | some _ => trivial | none => ?_⟩
      refine (listImageEntries_follows _ _).bind fun past' listed _ => ?_
      cases listed with
      | error e => trivial
      | ok rest =>
        dsimp only
        split
        · trivial
        · exact ⟨trivial, fun _ => trivial⟩
  | list =>
    show Prog.Follows _ _ _ (handleListImages J a)
    unfold handleListImages
    split
    · trivial
    · refine (listImageEntries_follows _ _).bind fun past' listed _ => ?_
      cases listed <;> trivial

end Kairon.Ui
