import Kairon.Ui.ImageStore

/-!
# The blobs of image entries

A delete removes a blob when no entry it has read refers to it: an upload of the same bytes may have
found the blob before and make its entry after. An upload also takes any failure to look for its
blob for a blob that is there, and two uploads to one name share a temporary file.

* `sound_inductive`: what uploads and deletes keep in orderly steps
* `entries_have_blobs`: then every entry has its blob
-/

namespace Kairon.Ui

open Infra List Option Function Host Pasts

variable {α : Type} {J : ImageLibraries α}

/-- Every entry can be read, and its blob is there. -/
def ImageStore.Complete (J : ImageLibraries α) (w : ImageStore α) : Prop :=
  ∀ name text, w.names.read (.entry name) = some text →
    ∃ img, J.unmarshal text = .ok img ∧ img.hex ∈ w.blobs

/-- A blob is removed only if no entry refers to it and no upload counts on it; looking for a blob
that is not there does not fail otherwise; and the temporary file of a name is opened only if no
other upload has it open. -/
def Orderly (J : ImageLibraries α) :
    Guard (ImageAns α) ImageReply ImageRequest (ImageStore α) := fun c l =>
  match l with
  | .call _ ⟨.removeBlob hex, _⟩ =>
    (∀ name text img, c.world.names.read (.entry name) = some text → J.unmarshal text = .ok img →
      img.hex ≠ hex) ∧ ∀ r past, c.past r = some past → secured past ≠ some hex
  | .call _ ⟨.statBlob hex, .failed _⟩ => hex ∈ c.world.blobs
  | .call _ ⟨.openTemp name, _⟩ => ∀ r past, c.past r = some past → r.2.uploadsTo = some name →
      openFile past = none
  | _ => True

def openOf (ps : Pasts (ImageAns α) ImageRequest) (r : ImageRequest) : Option Nat :=
  (ps r).bind openFile

section Invariant

variable {ps : Pasts (ImageAns α) ImageRequest} {r : ImageRequest}
  {past : ImagePast α}

theorem openOf_eq (h : ps r = some past) : openOf ps r = openFile past := by
  rw [openOf, h, bind_some]

theorem openOf_update_self (new : Option (ImagePast α)) :
    openOf (update ps r new) r = new.bind openFile := by
  rw [openOf, update_self]

theorem openOf_update_of_ne {u : ImageRequest} (h : u ≠ r) (new : Option (ImagePast α)) :
    openOf (update ps r new) u = openOf ps u := by
  rw [openOf, update_of_ne h, openOf]

structure Sound (J : ImageLibraries α) (w : ImageStore α)
    (ps : Pasts (ImageAns α) ImageRequest) : Prop where
  entries : ∀ name file, w.names.find (.entry name) = some file →
    ∃ img, J.unmarshal (w.names.data file) = .ok img ∧ img.hex ∈ w.blobs
  secured : ∀ r past, ps r = some past → ∀ hex, secured past = some hex → hex ∈ w.blobs
  opened : ∀ r file, openOf ps r = some file →
    ∃ name, r.2.uploadsTo = some name ∧ w.names.find (.temp name) = some file
  alone : ∀ r r' file, openOf ps r = some file → openOf ps r' = some file → r = r'
  texts : ∀ r past, ps r = some past → ∀ file, openFile past = some file →
    w.names.data file = openText past

namespace Sound

variable {w : ImageStore α}

theorem complete (h : Sound J w ps) : w.Complete J := by
  intro name text hread
  obtain ⟨file, hfind, rfl⟩ := map_eq_some_iff.mp hread
  exact h.entries name file hfind

theorem advance (h : Sound J w ps) {w' : ImageStore α} (hnames : w'.names = w.names)
    (hblobs : w.blobs ⊆ w'.blobs) {new : Option (ImagePast α)}
    (hsecured : ∀ past', new = some past' → ∀ hex, Ui.secured past' = some hex → hex ∈ w'.blobs)
    (hopen : ∀ past', new = some past' → openFile past' = none ∨
      ∃ past, ps r = some past ∧ openFile past' = openFile past ∧ openText past' = openText past) :
    Sound J w' (update ps r new) := by
  have hsame : ∀ u file, openOf (update ps r new) u = some file → openOf ps u = some file := by
    intro u file hfile
    by_cases hu : u = r
    · subst hu
      rw [openOf_update_self] at hfile
      obtain ⟨past', hnew, hfile⟩ := bind_eq_some_iff.mp hfile
      rcases hopen past' hnew with hnone | ⟨past, hpast, hold, -⟩
      · simp [hnone] at hfile
      · rw [openOf_eq hpast, ← hold, hfile]
    · rwa [openOf_update_of_ne hu] at hfile
  constructor
  · intro name file hfind
    rw [hnames] at hfind ⊢
    obtain ⟨img, himg, hhex⟩ := h.entries name file hfind
    exact ⟨img, himg, hblobs hhex⟩
  · refine forall_update hsecured fun u past _ hpast hex hhex => ?_
    exact hblobs (h.secured u past hpast hex hhex)
  · intro u file hfile
    rw [hnames]
    exact h.opened u file (hsame u file hfile)
  · exact fun u u' file hu hu' => h.alone u u' file (hsame u file hu) (hsame u' file hu')
  · rw [hnames]
    refine forall_update (fun past' hnew file hfile => ?_) fun u past _ => h.texts u past
    rcases hopen past' hnew with hnone | ⟨past, hpast, hold, htext⟩
    · simp [hnone] at hfile
    · rw [htext]
      exact h.texts r past hpast file (hold ▸ hfile)

theorem move (h : Sound J w ps) (hpast : ps r = some past) {w' : ImageStore α}
    (hnames : w'.names = w.names) (hblobs : w.blobs ⊆ w'.blobs) {ev : Event (ImageAns α)}
    (hsecured : ∀ hex, Ui.secured (ev :: past) = some hex → hex ∈ w'.blobs)
    (hopen : openFile (ev :: past) = none ∨
      openFile (ev :: past) = openFile past ∧ openText (ev :: past) = openText past) :
    Sound J w' (update ps r (some (ev :: past))) := by
  refine h.advance hnames hblobs (fun past' hnew => ?_) fun past' hnew => ?_
  · cases hnew
    exact hsecured
  · cases hnew
    exact hopen.imp_right fun h => ⟨past, hpast, h⟩

theorem step (h : Sound J w ps) (hpast : ps r = some past) {w' : ImageStore α}
    (hnames : w'.names = w.names) (hblobs : w'.blobs = w.blobs) {ev : Event (ImageAns α)}
    (hsecured : Ui.secured (ev :: past) = Ui.secured past)
    (hopen : openFile (ev :: past) = openFile past)
    (htext : openText (ev :: past) = openText past) :
    Sound J w' (update ps r (some (ev :: past))) :=
  h.move hpast hnames (hblobs ▸ List.Subset.refl _)
    (fun hex hhex => hblobs ▸ h.secured r past hpast hex (hsecured ▸ hhex)) (.inr ⟨hopen, htext⟩)

/-- A step of `r` that changes the directory: the entries are still complete, what the others have
open is as it was, and `r` knows what it has open itself. -/
theorem files (h : Sound J w ps) (hpast : ps r = some past) {names : Dir NamesFile α}
    {past' : ImagePast α}
    (hentries : ∀ name file, names.find (.entry name) = some file →
      ∃ img, J.unmarshal (names.data file) = .ok img ∧ img.hex ∈ w.blobs)
    (hothers : ∀ u ≠ r, ∀ name file, u.2.uploadsTo = some name → openOf ps u = some file →
      w.names.find (.temp name) = some file → names.find (.temp name) = some file ∧
        names.data file = w.names.data file ∧ openFile past' ≠ some file)
    (hself : ∀ file, openFile past' = some file → names.data file = openText past' ∧
      ∃ name, r.2.uploadsTo = some name ∧ names.find (.temp name) = some file)
    (hsecured : ∀ hex, Ui.secured past' = some hex → Ui.secured past = some hex) :
    Sound J { w with names := names } (update ps r (some past')) := by
  have hdiffer : ∀ u ≠ r, ∀ file, openOf ps u = some file → openFile past' ≠ some file := by
    intro u hu file hfile
    obtain ⟨name, hname, hfind⟩ := h.opened u file hfile
    exact (hothers u hu name file hname hfile hfind).2.2
  constructor
  · exact hentries
  · refine forall_update (fun past₁ hnew hex hhex => ?_) fun u past _ => h.secured u past
    cases hnew
    exact h.secured r past hpast hex (hsecured hex hhex)
  · intro u file hfile
    by_cases hu : u = r
    · rw [hu, openOf_update_self] at hfile
      exact hu ▸ (hself file hfile).2
    · rw [openOf_update_of_ne hu] at hfile
      obtain ⟨name, hname, hfind⟩ := h.opened u file hfile
      exact ⟨name, hname, (hothers u hu name file hname hfile hfind).1⟩
  · intro u u' file hfile hfile'
    by_cases hu : u = r <;> by_cases hu' : u' = r
    · rw [hu, hu']
    · rw [hu, openOf_update_self] at hfile
      rw [openOf_update_of_ne hu'] at hfile'
      exact absurd hfile (hdiffer u' hu' file hfile')
    · rw [hu', openOf_update_self] at hfile'
      rw [openOf_update_of_ne hu] at hfile
      exact absurd hfile' (hdiffer u hu file hfile)
    · rw [openOf_update_of_ne hu] at hfile
      rw [openOf_update_of_ne hu'] at hfile'
      exact h.alone u u' file hfile hfile'
  · refine forall_update (fun past₁ hnew file hfile => ?_)
      fun u past₁ hu hpast₁ file hfile => ?_
    · cases hnew
      exact (hself file hfile).1
    · have hopen : openOf ps u = some file := (openOf_eq hpast₁).trans hfile
      obtain ⟨name, hname, hfind⟩ := h.opened u file hopen
      rw [(hothers u hu name file hname hopen hfind).2.1]
      exact h.texts u past₁ hpast₁ file hfile

theorem openTemp (h : Sound J w ps) (hpast : ps r = some past) {name : String}
    (hname : r.2.uploadsTo = some name)
    (hfree : ∀ r past, ps r = some past → r.2.uploadsTo = some name → openFile past = none) :
    Sound J { w with names := (w.names.create (.temp name)).1 } (update ps r
      (some (⟨.openTemp name, .ok (w.names.create (.temp name)).2⟩ :: past))) := by
  have hdata : ∀ file ≠ (w.names.create (.temp name)).2,
      (w.names.create (.temp name)).1.data file = w.names.data file := by
    intro file hne
    rw [Dir.data_create, update_of_ne hne]
  refine h.files hpast ?_ ?_ ?_ fun hex hhex => hhex
  · intro name' file hfind
    rw [Dir.find_create, if_neg nofun] at hfind
    rw [hdata file (Dir.ne_create hfind nofun)]
    exact h.entries name' file hfind
  · intro u hu name' file hname' hopen hfind
    have hne : name' ≠ name := by
      rintro rfl
      obtain ⟨past', hpast', hfile⟩ := bind_eq_some_iff.mp hopen
      simp [hfree u past' hpast' hname'] at hfile
    have hkey : NamesFile.temp name' ≠ .temp name := fun heq => hne (NamesFile.temp.inj heq)
    have hfile := Dir.ne_create hfind hkey
    rw [Dir.find_create, if_neg hkey]
    exact ⟨hfind, hdata file hfile, fun heq => hfile (Option.some.inj heq).symm⟩
  · rintro file heq
    cases heq
    rw [Dir.data_create, update_self]
    exact ⟨rfl, name, hname, by rw [Dir.find_create, if_pos rfl]⟩

theorem writeTemp (h : Sound J w ps) (hpast : ps r = some past) {ev : Event (ImageAns α)}
    {file : Nat} {text : List α} (hopen : openFile past = some file)
    (hev : openFile (ev :: past) = openFile past)
    (htext : openText (ev :: past) = Dir.overwrite text (openText past))
    (hsecured : Ui.secured (ev :: past) = Ui.secured past) :
    Sound J { w with names := w.names.write file text }
      (update ps r (some (ev :: past))) := by
  have hopenr : openOf ps r = some file := (openOf_eq hpast).trans hopen
  obtain ⟨name, hname, hfind⟩ := h.opened r file hopenr
  have hdata : ∀ file' ≠ file, (w.names.write file text).data file' = w.names.data file' :=
    fun file' hne => update_of_ne hne ..
  refine h.files hpast ?_ ?_ ?_ fun hex hhex => hsecured ▸ hhex
  · intro name' file' hfind'
    have hne : file' ≠ file := by
      rintro rfl
      cases Dir.eq_of_find hfind' hfind
    rw [hdata file' hne]
    exact h.entries name' file' hfind'
  · intro u hu name' file' hname' hopen' hfind'
    have hne : file' ≠ file := by
      rintro rfl
      exact hu (h.alone u r file' hopen' hopenr)
    refine ⟨hfind', hdata file' hne, fun heq => hne ?_⟩
    rw [hev, hopen] at heq
    exact (Option.some.inj heq).symm
  · intro file' heq
    obtain rfl : file = file' := Option.some.inj (hopen.symm.trans (hev ▸ heq))
    rw [htext, ← h.texts r past hpast file hopen]
    exact ⟨update_self .., name, hname, hfind⟩

theorem temp_ne_entry {a b : String} : NamesFile.temp a ≠ .entry b := nofun

theorem renameEntry (h : Sound J w ps) {name : String} {file : Nat} {img : UploadedImage}
    {older : ImagePast α} (hname : r.2.uploadsTo = some name)
    (hpast : ps r = some (⟨.writeTemp file (J.marshal img), .ok⟩ ::
      ⟨.openTemp name, .ok file⟩ :: older)) (hsecured : Ui.secured older = some img.hex) :
    Sound J { w with names := w.names.rename (.temp name) (.entry name) } (update ps r
      (some (⟨.renameEntry name, none⟩ :: ⟨.writeTemp file (J.marshal img), .ok⟩ ::
        ⟨.openTemp name, .ok file⟩ :: older))) := by
  obtain ⟨name', hname', hfind⟩ := h.opened r file (openOf_eq hpast)
  obtain rfl : name' = name := Option.some.inj (hname'.symm.trans hname)
  have htext : w.names.data file = J.marshal img := by
    rw [h.texts r _ hpast file rfl]
    exact Dir.overwrite_nil _
  refine h.files hpast ?_ ?_ (by rintro _ ⟨⟩) (by rintro _ ⟨⟩)
  · intro name₁ file₁ hfind₁
    rw [Dir.data_rename]
    rw [Dir.find_rename hfind] at hfind₁
    split_ifs at hfind₁ with hkey
    · cases hfind₁
      refine ⟨img, ?_, h.secured r _ hpast _ hsecured⟩
      rw [htext, J.unmarshal_marshal]
    · exact h.entries name₁ file₁ hfind₁
  · intro u hu name₁ file₁ hname₁ hopen₁ hfind₁
    have hne : name₁ ≠ name' := by
      rintro rfl
      obtain rfl := Option.some.inj (hfind₁.symm.trans hfind)
      exact hu (h.alone u r file₁ hopen₁ (openOf_eq hpast))
    refine ⟨?_, by rw [Dir.data_rename], by rintro ⟨⟩⟩
    rwa [Dir.find_rename hfind, if_neg temp_ne_entry,
      if_neg fun heq => hne (NamesFile.temp.inj heq)]

theorem removeEntry (h : Sound J w ps) (hpast : ps r = some past) (name : String) :
    Sound J { w with names := w.names.remove (.entry name) }
      (update ps r (some (⟨.removeEntry name, none⟩ :: past))) := by
  refine h.files hpast ?_ ?_ ?_ fun hex hhex => hhex
  · intro name' file hfind
    rw [Dir.find_remove] at hfind
    split_ifs at hfind
    exact h.entries name' file hfind
  · intro u hu name' file hname' hopen hfind
    rw [Dir.find_remove, if_neg temp_ne_entry]
    refine ⟨hfind, rfl, fun heq => hu ?_⟩
    exact h.alone u r file hopen ((openOf_eq hpast).trans heq)
  · intro file hfile
    obtain ⟨name', hname', hfind⟩ := h.opened r file ((openOf_eq hpast).trans hfile)
    refine ⟨h.texts r past hpast file hfile, name', hname', ?_⟩
    rwa [Dir.find_remove, if_neg temp_ne_entry]

theorem removeBlob (h : Sound J w ps) {hex : String}
    (hentries : ∀ name text img, w.names.read (.entry name) = some text →
      J.unmarshal text = .ok img → img.hex ≠ hex)
    (hnone : ∀ r past, ps r = some past → Ui.secured past ≠ some hex) :
    Sound J { w with blobs := w.blobs.filter (· ≠ hex) } ps := by
  refine { h with entries := ?_, secured := ?_ }
  · intro name file hfind
    obtain ⟨img, himg, hmem⟩ := h.entries name file hfind
    refine ⟨img, himg, mem_filter.mpr ⟨hmem, ?_⟩⟩
    simpa using hentries name _ img (by rw [Dir.read, hfind]; rfl) himg
  · intro r past hpast hex' hhex
    refine mem_filter.mpr ⟨h.secured r past hpast hex' hhex, ?_⟩
    have hne : hex' ≠ hex := by
      rintro rfl
      exact hnone r past hpast hhex
    simpa using hne

end Sound

end Invariant

variable [DecidableEq α] {a : ImageSettings}

theorem sound_inductive :
    Inductive (imageHost J a) (ImageRule J) (fun _ _ _ => True) (Orderly J) (Sound J) where
  start h _ := by
    refine h.advance rfl (List.Subset.refl _) (fun past hnew => ?_) fun past hnew => ?_
    · cases hnew
      exact nofun
    · cases hnew
      exact .inl rfl
  call {c r e ans w past} h hpast hrule hguard hout := by
    have hsub := List.Subset.refl c.world.blobs
    cases e with
    | mkdirBlobs | mkdirNames | timeNow =>
      rw [mem_singleton.mp hout]
      exact h.step hpast rfl rfl rfl rfl rfl
    | readEntry | copy | readDir =>
      obtain ⟨_, hout⟩ := mem_ite_nil_right.mp hout
      rw [mem_singleton.mp hout]
      exact h.step hpast rfl rfl rfl rfl rfl
    | createUpload =>
      cases ans <;> rw [mem_singleton.mp hout]
      · exact h.step hpast (by rfl) (by rfl) rfl rfl rfl
      · exact h.step hpast rfl rfl rfl rfl rfl
    | removeUpload =>
      rcases mem_cons.mp hout with rfl | hout
      · exact h.step hpast (by rfl) (by rfl) rfl rfl rfl
      · rw [mem_singleton.mp hout]
        exact h.step hpast rfl rfl rfl rfl rfl
    | statBlob hex =>
      obtain ⟨hstat, hout⟩ := mem_ite_nil_right.mp hout
      rw [mem_singleton.mp hout]
      refine h.move hpast rfl hsub (fun hex' hhex => ?_) (.inr ⟨rfl, rfl⟩)
      cases ans with
      | notExist => cases hhex
      | found =>
        cases hhex
        exact of_decide_eq_true hstat
      | failed e =>
        cases hhex
        exact hguard
    | renameBlob hex =>
      cases ans with
      | some e =>
        rw [mem_singleton.mp hout]
        exact h.move hpast rfl hsub nofun (.inr ⟨rfl, rfl⟩)
      | none =>
        rw [mem_singleton.mp hout]
        refine h.move hpast (by rfl) (by exact subset_cons_self ..) (fun hex' hhex => ?_)
          (.inr ⟨rfl, rfl⟩)
        cases hhex
        exact mem_cons_self
    | openTemp name =>
      cases ans with
      | error e =>
        rw [mem_singleton.mp hout]
        exact h.step hpast rfl rfl rfl rfl rfl
      | ok file =>
        obtain ⟨hfile, hout⟩ := mem_ite_nil_right.mp hout
        rw [mem_singleton.mp hout, hfile]
        exact h.openTemp hpast hrule.1 hguard
    | writeTemp file text =>
      obtain ⟨name, older, rfl⟩ := hrule
      cases ans <;>
        (rw [mem_singleton.mp hout]; exact h.writeTemp hpast rfl rfl rfl rfl)
    | renameEntry name =>
      cases ans with
      | some e =>
        rw [mem_singleton.mp hout]
        exact h.move hpast rfl hsub nofun (.inl rfl)
      | none =>
        obtain ⟨hname, file, img, older, rfl, hsecured⟩ := hrule
        obtain ⟨_, hout⟩ := mem_ite_nil_right.mp hout
        rw [mem_singleton.mp hout]
        exact h.renameEntry hname hpast hsecured
    | removeEntry name =>
      cases ans with
      | some e =>
        rw [mem_singleton.mp hout]
        exact h.step hpast rfl rfl rfl rfl rfl
      | none =>
        obtain ⟨_, hout⟩ := mem_ite_nil_right.mp hout
        rw [mem_singleton.mp hout]
        exact h.removeEntry hpast name
    | removeBlob hex =>
      have hstep : Sound J c.world
          (update c.past r (some (⟨.removeBlob hex, ()⟩ :: past))) :=
        h.step hpast rfl rfl rfl rfl rfl
      rcases mem_cons.mp hout with rfl | hout
      · refine hstep.removeBlob hguard.1 (forall_update (fun past' hnew => ?_)
          fun u past' _ => hguard.2 u past')
        cases hnew
        exact hguard.2 r past hpast
      · rwa [mem_singleton.mp hout]
  stop h _ _ := h.advance rfl (List.Subset.refl _) nofun nofun
  crash h _ _ _ := h.advance rfl (List.Subset.refl _) nofun nofun
  env _ henv _ := henv.elim

def imageLetters : ImageLibraries UploadedImage where
  sha256Hex text := text
  marshal img := [img]
  unmarshal
    | [img] => .ok img
    | _ => .error "unexpected end of JSON input"
  unmarshal_marshal _ := rfl

def openStore : ImageSettings := ⟨true, 0, ""⟩

def noImages : ImageStore UploadedImage := ⟨[], [], .empty⟩

def ImageStore.answer (w : ImageStore UploadedImage) : (e : ImageOp UploadedImage) → e.Ans
  | .readEntry name => (w.names.read (.entry name)).elim .notExist .ok
  | .mkdirBlobs | .createUpload | .renameBlob _ | .mkdirNames | .renameEntry _ | .removeEntry _ =>
    none
  | .copy _ _ => .ok
  | .removeUpload | .removeBlob _ => ()
  | .statBlob hex => if hex ∈ w.blobs then .found else .notExist
  | .timeNow => (0 : Int)
  | .openTemp name => .ok (w.names.create (.temp name)).2
  | .writeTemp _ _ => .ok
  | .readDir => .ok w.entryNames

def uploadTo (name : String) : ImageRequest :=
  (0, .upload ⟨name, true, "admin", "raw", false, "bytes", "", "kairon", false⟩)

def deleteBase : ImageRequest := (0, .delete "base" true)

abbrev ImageMove := Move (ImageAns UploadedImage) ImageReply ImageRequest (ImageStore UploadedImage)

def imageSteps (r : ImageRequest) (n : Nat) : List ImageMove :=
  List.replicate n (.call r (fun w => w.answer) 0)

def imageStart (r : ImageRequest) : ImageMove :=
  .start r (r.2.code imageLetters openStore)

def deleteDuringUpload : List ImageMove :=
  imageStart (uploadTo "base") :: imageSteps (uploadTo "base") 12 ++ .stop (uploadTo "base") ::
    imageStart deleteBase :: imageSteps deleteBase 3 ++
    imageStart (uploadTo "copy") :: imageSteps (uploadTo "copy") 5 ++
    imageSteps deleteBase 1 ++ .stop deleteBase :: imageSteps (uploadTo "copy") 6 ++
    [.stop (uploadTo "copy")]

def threeRequests : List ImageRequest := [uploadTo "base", deleteBase, uploadTo "copy"]

/-- A check of `Orderly` for runs of the three requests. -/
def orderlyCheck (c : Conf (ImageAns UploadedImage) ImageReply ImageRequest
    (ImageStore UploadedImage)) :
    Label (ImageAns UploadedImage) ImageReply ImageRequest (ImageStore UploadedImage) → Bool
  | .start r _ => r ∈ threeRequests
  | .call _ ⟨.openTemp _, _⟩ =>
    threeRequests.all fun r => (c.past r).all fun past => openFile past = none
  | .call _ ⟨.removeBlob hex, _⟩ => c.world.names.files.rows.isEmpty &&
    threeRequests.all fun r => (c.past r).all fun past => secured past ≠ some hex
  | .call _ ⟨.statBlob _, .failed _⟩ => false
  | _ => true

end Kairon.Ui
