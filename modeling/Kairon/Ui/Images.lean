import Kairon.Infra.GoText
import Kairon.Infra.Prog

/-!
# The image store of the UI

Uploading, listing and deleting images (`internal/uiapi/images.go`), one call for each operation on
files. A blob has the digest of its bytes as its name, and an entry has the digest. Entries are in
JSON, which is a parameter; files are made of letters `α`.
-/

namespace Kairon.Ui

open Infra

structure UploadedImage where
  name : String
  digest : String
  sizeBytes : Nat
  format : String
  url : String
  uploadedAt : Int
  uploadedBy : String
  deriving DecidableEq

structure ImageLibraries (α : Type) where
  sha256Hex : String → String
  marshal : UploadedImage → List α
  unmarshal : List α → Except String UploadedImage
  unmarshal_marshal : ∀ img, unmarshal (marshal img) = .ok img

structure ImageSettings where
  /-- `ImageStoreDir` is set. -/
  enabled : Bool
  /-- `ImageStoreMaxBytes`. -/
  maxBytes : Int
  /-- `ImageStorePublicURL`. -/
  publicURL : String

structure Upload where
  name : String
  admin : Bool
  username : String
  format : String
  replace : Bool
  body : String
  /-- `X-Image-Digest`. -/
  want : String
  host : String
  tls : Bool
  deriving DecidableEq

def imageDigestPrefix : String := "sha256:"

def imageSourceFormats : List String := ["", "qcow2", "raw", "ova", "vmdk", "vhd", "vhdx"]

def UploadedImage.hex (img : UploadedImage) : String :=
  (GoText.cutPrefix img.digest imageDigestPrefix).getD img.digest

def isNameEnd (c : Char) : Bool := 'a' ≤ c ∧ c ≤ 'z' ∨ '0' ≤ c ∧ c ≤ '9'

def isNameChar (c : Char) : Bool := isNameEnd c || c = '.' || c = '_' || c = '-'

def matchesImageName (s : String) : Bool :=
  match s.toList with
  | [] => false
  | c :: rest =>
    isNameEnd c && (rest.isEmpty || decide (rest.length ≤ 127) && rest.dropLast.all isNameChar &&
      rest.getLast?.any isNameEnd)

def imageURL (a : ImageSettings) (u : Upload) (hexDigest : String) : String :=
  let base := GoText.trimRight a.publicURL '/'
  (if base = "" then (if u.tls then "https" else "http") ++ "://" ++ u.host else base) ++
    "/images/sha256/" ++ hexDigest

/-! ## The calls -/

inductive FileRead (α : Type) where
  | ok (text : List α)
  | notExist
  | failed (message : String)

inductive FileStat where
  | found
  | notExist
  | failed (message : String)
  deriving DecidableEq

inductive Copied where
  | ok
  | tooBig
  | failed (message : String)

/-- What becomes of writing a file; a failed write may have written some of it. -/
inductive Written where
  | ok
  | failed (letters : Nat) (message : String)

inductive DirRead where
  | ok (names : List String)
  | notExist
  | failed (message : String)

inductive ImageOp (α : Type) where
  | readEntry (name : String)
  | mkdirBlobs
  /-- `os.CreateTemp` for the bytes of an upload. -/
  | createUpload
  | copy (body : String) (limit : Int)
  | removeUpload
  | statBlob (hex : String)
  | renameBlob (hex : String)
  | timeNow
  | mkdirNames
  /-- The first half of `os.WriteFile`, on the temporary file of a name; -/
  | openTemp (name : String)
  /-- and the second half. -/
  | writeTemp (file : Nat) (text : List α)
  | renameEntry (name : String)
  | removeEntry (name : String)
  | readDir
  | removeBlob (hex : String)

/-- The answers; where a call only fails or does not, the failure. -/
@[reducible] def ImageOp.Ans {α : Type} : ImageOp α → Type
  | readEntry _ => FileRead α
  | mkdirBlobs | createUpload | renameBlob _ | mkdirNames | renameEntry _ | removeEntry _ =>
    Option String
  | copy _ _ => Copied
  | removeUpload | removeBlob _ => Unit
  | statBlob _ => FileStat
  | timeNow => Int
  | openTemp _ => Except String Nat
  | writeTemp _ _ => Written
  | readDir => DirRead

inductive ImageReply where
  | error (code : Nat) (message : String)
  | created (img : UploadedImage)
  | images (imgs : List UploadedImage)
  | noContent

abbrev ImageAns (α : Type) : ImageOp α → Type := ImageOp.Ans

abbrev ImagePast (α : Type) := List (Event (ImageAns α))

abbrev ImageProg (α : Type) := Prog (ImageAns α) ImageReply

variable {α : Type} (J : ImageLibraries α) (a : ImageSettings)

/-! ## Entries -/

inductive EntryError where
  | notExist
  | failed (message : String)

def readImageEntry (name : String) : Prog (ImageAns α) (Except EntryError UploadedImage) :=
  .call (.readEntry name) fun (got : FileRead α) =>
    match got with
    | .notExist => .ret (.error .notExist)
    | .failed e => .ret (.error (.failed e))
    | .ok text =>
      match J.unmarshal text with
      | .error e => .ret (.error (.failed e))
      | .ok img => .ret (.ok img)

def writeImageEntry (img : UploadedImage) : Prog (ImageAns α) (Option String) :=
  .call .mkdirNames fun (made : Option String) =>
    match made with
    | some e => .ret (some e)
    | none =>
      .call (.openTemp img.name) fun (opened : Except String Nat) =>
        match opened with
        | .error e => .ret (some e)
        | .ok file =>
          .call (.writeTemp file (J.marshal img)) fun (written : Written) =>
            match written with
            | .failed _ e => .ret (some e)
            | .ok => .call (.renameEntry img.name) fun (renamed : Option String) => .ret renamed

def readEntries : List String → Prog (ImageAns α) (List UploadedImage)
  | [] => .ret []
  | name :: names =>
    (readImageEntry J name).bind fun got =>
      (readEntries names).bind fun rest =>
        .ret (match got with
          | .ok img => img :: rest
          | .error _ => rest)

def listImageEntries : Prog (ImageAns α) (Except String (List UploadedImage)) :=
  .call .readDir fun (got : DirRead) =>
    match got with
    | .notExist => .ret (.ok [])
    | .failed e => .ret (.error e)
    | .ok names => (readEntries J names).bind fun imgs => .ret (.ok imgs)

/-! ## The handlers -/

def notEnabled : ImageReply :=
  .error 501 "the image store is not enabled on this deployment (ui.imageStore.enabled)"

def pointName (u : Upload) : ImageProg α :=
  .call .timeNow fun (now : Int) =>
    let hexDigest := J.sha256Hex u.body
    let img : UploadedImage :=
      ⟨u.name, imageDigestPrefix ++ hexDigest, u.body.utf8ByteSize, u.format,
        imageURL a u hexDigest, now, u.username⟩
    (writeImageEntry J img).bind fun (failed : Option String) =>
      match failed with
      | some e => .ret (.error 500 e)
      | none => .ret (.created img)

def storeUpload (u : Upload) : ImageProg α :=
  .call (.copy u.body a.maxBytes) fun (copied : Copied) =>
    match copied with
    | .tooBig =>
      .ret (.error 413 ("image exceeds the " ++ toString a.maxBytes ++ "-byte upload limit"))
    | .failed e => .ret (.error 400 ("upload interrupted: " ++ e))
    | .ok =>
      let hexDigest := J.sha256Hex u.body
      if u.body.utf8ByteSize = 0 then .ret (.error 400 "empty upload")
      else if u.want ≠ "" ∧ u.want ≠ imageDigestPrefix ++ hexDigest then
        .ret (.error 400 ("digest mismatch: received " ++ imageDigestPrefix ++ hexDigest ++
          ", client sent " ++ u.want))
      else
        .call (.statBlob hexDigest) fun (stat : FileStat) =>
          match stat with
          | .notExist =>
            .call (.renameBlob hexDigest) fun (renamed : Option String) =>
              match renamed with
              | some e => .ret (.error 500 e)
              | none => pointName J a u
          | _ => pointName J a u

def handleUploadImage (u : Upload) : ImageProg α :=
  if ¬a.enabled then .ret notEnabled
  else if ¬u.admin then .ret (.error 403 "uploading images requires an admin account")
  else if ¬matchesImageName u.name then
    .ret (.error 400 ("image name must be 1-128 lowercase letters, digits, '.', '_' or '-', " ++
      "starting and ending alphanumeric"))
  else if u.format ∉ imageSourceFormats then
    .ret (.error 400 ("format " ++ GoText.quote u.format ++
      " must be one of qcow2, raw, ova, vmdk, vhd, vhdx"))
  else
    (readImageEntry J u.name).bind fun entry =>
      if entry.isOk ∧ ¬u.replace then
        .ret (.error 409 ("image " ++ GoText.quote u.name ++
          " already exists (pass replace=true to repoint it)"))
      else
        .call .mkdirBlobs fun (made : Option String) =>
          match made with
          | some e => .ret (.error 500 e)
          | none =>
            .call .createUpload fun (created : Option String) =>
              match created with
              | some e => .ret (.error 500 e)
              | none =>
                (storeUpload J a u).bind fun reply =>
                  .call .removeUpload fun _ => .ret reply

def handleListImages : ImageProg α :=
  if ¬a.enabled then .ret notEnabled
  else
    (listImageEntries J).bind fun listed =>
      match listed with
      | .error e => .ret (.error 500 e)
      | .ok imgs => .ret (.images imgs)

def handleDeleteImage (name : String) (admin : Bool) : ImageProg α :=
  if ¬a.enabled then .ret notEnabled
  else if ¬admin then .ret (.error 403 "deleting images requires an admin account")
  else if ¬matchesImageName name then .ret (.error 400 "invalid image name")
  else
    (readImageEntry J name).bind fun entry =>
      match entry with
      | .error .notExist => .ret (.error 404 ("image " ++ GoText.quote name ++ " not found"))
      | .error (.failed e) => .ret (.error 500 e)
      | .ok img =>
        .call (.removeEntry name) fun (removed : Option String) =>
          match removed with
          | some e => .ret (.error 500 e)
          | none =>
            (listImageEntries J).bind fun listed =>
              match listed with
              | .error _ => .ret .noContent
              | .ok rest =>
                if rest.any fun o => o.digest = img.digest then .ret .noContent
                else .call (.removeBlob img.hex) fun _ => .ret .noContent

inductive ImageCall where
  | upload (u : Upload)
  | delete (name : String) (admin : Bool)
  | list
  deriving DecidableEq

def ImageCall.code : ImageCall → ImageProg α
  | upload u => handleUploadImage J a u
  | delete name admin => handleDeleteImage J a name admin
  | list => handleListImages J a

end Kairon.Ui
