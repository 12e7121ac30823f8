import Kairon.Cluster.World
import Kairon.Controller.Attestation

/-!
# What a mark of attestation stands for

A Machine that is marked as verified for the kind of its node should have shown a report there. The
controller works on a listing, its patch finds whatever has the name by then, and the mark stays
when the Machine goes to another node.

* `attested_inductive`: a mark and a report, in every undisturbed step
* `sealed_on_report`: whoever is marked for its node has shown a report there
-/

namespace Kairon.Attestation

open Infra Model Cluster List Host Table Pasts

abbrev History := List (Event AttestOp.Ans)

def verified (m : Machine) : String := m.metadata.annotations.get annAttestationVerified

def nonce (m : Machine) : String := m.metadata.annotations.get annAttestationNonce

variable {P : Primitives} {writers : List String} {nodes : List Node} {h : History} {patch : Patch}
  {c : Conf AttestOp.Ans Unit Nat World} {m : Machine}

/-! ## The pass -/

def Lists (h : History) (m : Machine) : Prop := ∃ l, ⟨.listMachines, .ok l⟩ ∈ h ∧ m ∈ l

theorem Lists.mono {h' : History} (hm : Lists h m) (hh : h <:+ h') : Lists h' m := by
  obtain ⟨l, hl, hmem⟩ := hm
  exact ⟨l, hh.mem hl, hmem⟩

/-- What the pass may patch: the mark right after the report was verified, and nonces that it
drew. -/
structure PatchRule (P : Primitives) (h : History) (m : Machine) (patch : Patch) : Prop where
  verified : ∀ kind, (annAttestationVerified, some kind) ∈ patch → nonce m ≠ "" ∧
    ∃ raw rest, Lists rest m ∧
      h = ⟨.verify kind raw (P.reportData m.metadata.uid (nonce m)), .ok ()⟩ :: rest
  nonce : ∀ n, (annAttestationNonce, some n) ∈ patch → ⟨.newNonce, n⟩ ∈ h

def AttestRule (P : Primitives) (h : History) : AttestOp → Prop
  | .patchMachine m patch => PatchRule P h m patch
  | _ => True

theorem PatchRule.of_draw {n : String}
    (hpatch : ∀ e ∈ patch, e = (annAttestationNonce, some n) ∨
      e.1 ≠ annAttestationNonce ∧ (e.1 = annAttestationVerified → e.2 = none)) :
    PatchRule P (⟨.newNonce, n⟩ :: h) m patch where
  verified kind hk := by
    rcases hpatch _ hk with he | ⟨-, he⟩
    · have hkey : annAttestationVerified = annAttestationNonce := congrArg Prod.fst he
      exact absurd hkey (by decide)
    · cases he rfl
  nonce n' hn := by
    rcases hpatch _ hn with he | ⟨he, -⟩
    · cases he
      exact mem_cons_self
    · exact absurd rfl he

def Proposes (P : Primitives) (m : Machine) (h : History) (r : Option Patch) : Prop :=
  ∀ patch, r = some patch → PatchRule P h m patch

theorem proposes_none : Proposes P m h none := nofun

theorem fail_follows (msg : String) : (fail msg).Follows (AttestRule P) (Proposes P m) h := by
  refine ⟨trivial, fun n => ?_⟩
  rintro patch ⟨⟩
  refine .of_draw fun e he => ?_
  simp only [mem_cons, not_mem_nil, or_false] at he
  rcases he with rfl | rfl | rfl
  · exact .inr ⟨show annAttestationError ≠ _ by decide,
      fun he => absurd he (show annAttestationError ≠ _ by decide)⟩
  · exact .inl rfl
  · exact .inr ⟨show annAttestationReport ≠ _ by decide, fun _ => rfl⟩

theorem attestationStep_follows {nodeKind : String} (hm : Lists h m) :
    (attestationStep P m nodeKind).Follows (AttestRule P) (Proposes P m) h := by
  unfold attestationStep
  dsimp only
  generalize GoText.toLower (GoText.trimSpace (m.metadata.annotations.get annConfidential)) = kind
  split
  · exact proposes_none
  · by_cases hcap : nodeKind ≠ kind
    · rw [if_pos hcap]
      split
      · rintro patch ⟨⟩
        constructor
        · intro kind' hk
          simp only [mem_cons, Prod.mk.injEq, not_mem_nil, or_false] at hk
          rcases hk with ⟨-, hk⟩ | ⟨hk, -⟩
          · cases hk
          · exact absurd hk (by decide)
        · intro n hn
          simp only [mem_cons, Prod.mk.injEq, not_mem_nil, or_false] at hn
          rcases hn with ⟨hn, -⟩ | ⟨hn, -⟩
          · exact absurd hn (by decide)
          · exact absurd hn (by decide)
      · exact proposes_none
    · rw [if_neg hcap]
      split
      · exact proposes_none
      · split
        · refine ⟨trivial, fun n => ?_⟩
          rintro patch ⟨⟩
          refine .of_draw fun e he => ?_
          simp only [mem_cons, not_mem_nil, or_false] at he
          rcases he with rfl | rfl
          · exact .inl rfl
          · exact .inr ⟨show annAttestationReport ≠ _ by decide, fun _ => rfl⟩
        · next hnonce =>
          split
          · exact proposes_none
          · split
            · exact fail_follows _
            · next raw _ =>
              refine ⟨trivial, fun | .error _ => fail_follows _ | .ok u => ?_⟩
              rintro patch ⟨⟩
              constructor
              · intro kind' hk
                simp only [mem_cons, Prod.mk.injEq, not_mem_nil, or_false,
                  reduceCtorEq, and_false] at hk
                obtain ⟨-, hk⟩ := hk
                cases hk
                exact ⟨hnonce, raw, h, hm, rfl⟩
              · intro n hn
                simp only [mem_cons, Prod.mk.injEq, not_mem_nil, or_false,
                  reduceCtorEq, and_false] at hn
                exact absurd hn.1 (by decide)

theorem attestMachine_follows (hm : Lists h m) :
    (attestMachine P nodes m).Follows (AttestRule P) (fun _ _ => True) h := by
  refine (attestationStep_follows hm).bind fun h' r hr => ?_
  cases r with
  | none => trivial
  | some patch => exact ⟨hr patch rfl, fun _ => trivial⟩

theorem attestationTick_follows (P : Primitives) :
    (attestationTick P).Follows (AttestRule P) (fun _ _ => True) [] := by
  refine ⟨trivial, fun | .error _ => trivial | .ok machines => ?_⟩
  refine ⟨trivial, fun | .error _ => trivial | .ok nodes => ?_⟩
  -- what is left of the list has been listed
  have hlisted : ∀ m ∈ machines, Lists
      [⟨.listNodes, .ok nodes⟩, ⟨.listMachines, .ok machines⟩] m :=
    fun m hm => ⟨machines, by simp, hm⟩
  refine Prog.Follows.mono (Prog.Follows.forEach (fun h ms => ∀ m ∈ ms, Lists h m)
    (fun h m ms hms => ?_) hlisted) (fun _ _ => id) fun _ _ _ => trivial
  refine (attestMachine_follows (hms m mem_cons_self)).extend.mono (fun _ _ => id) ?_
  exact fun h' _ hh m' hm' => (hms m' (mem_cons_of_mem _ hm')).mono hh.1

/-! ## The mark -/

/-- The Machine is marked as verified for the kind of its node. -/
def Sealed (nodes : List Node) (m : Machine) : Prop :=
  verified m ≠ "" ∧ capable nodes m.spec.nodeName = verified m

/-- A report of the marked kind was verified, for the UID of the Machine and a nonce that the
controller had generated, when the Machine was on the node it is on. -/
def Vouched (P : Primitives) (w : World) (m : Machine) : Prop :=
  ∃ a ∈ w.accepted, a.kind = verified m ∧
    (∃ nonce ∈ a.issued, a.want = P.reportData m.metadata.uid nonce) ∧
    ∃ m' ∈ a.stored, m'.metadata.uid = m.metadata.uid ∧ m'.spec.nodeName = m.spec.nodeName

/-- The patch that marks a Machine finds the Machine that was listed, on the node where it was when
its report was verified; and no write brings a marked Machine to another node of its kind. -/
def Undisturbed (nodes : List Node) : Guard AttestOp.Ans Unit Nat World
  | c, .call t ⟨.patchMachine listed patch, _⟩ =>
    ∀ kind, (annAttestationVerified, some kind) ∈ patch → ∀ m ∈ c.world.machines.rows,
      m.key = listed.key → capable nodes m.spec.nodeName = kind →
        m.metadata.uid = listed.metadata.uid ∧ ∀ a, c.world.accepted.find? (·.tick = t) = some a →
          ∃ m' ∈ a.stored, m'.metadata.uid = m.metadata.uid ∧ m'.spec.nodeName = m.spec.nodeName
  | c, .env w =>
    ∀ m ∈ c.world.machines.rows, ∀ m' ∈ w.machines.rows, m'.key = m.key →
      m'.metadata.uid = m.metadata.uid → Sealed nodes m' → m'.spec.nodeName = m.spec.nodeName
  | _, _ => True

def Drawn (issued : List String) (n : String) : Prop := n = "" ∨ n ∈ issued

structure Remembers (w : World) (t : Nat) (past : History) : Prop where
  listed : ∀ m, Lists past m → Drawn w.issued (nonce m)
  drawn : ∀ n, ⟨.newNonce, n⟩ ∈ past → n ∈ w.issued
  accepted : ∀ kind raw want rest, past = ⟨.verify kind raw want, .ok ()⟩ :: rest →
    ∃ a, w.accepted.find? (·.tick = t) = some a ∧ a.kind = kind ∧ a.want = want ∧
      ∀ m, Lists rest m → Drawn a.issued (nonce m)

structure Attested (P : Primitives) (nodes : List Node) (w : World)
    (ps : Pasts AttestOp.Ans Nat) : Prop where
  drawn : ∀ m ∈ w.machines.rows, Drawn w.issued (nonce m)
  vouched : ∀ m ∈ w.machines.rows, Sealed nodes m → Vouched P w m
  remembers : ∀ t past, ps t = some past → Remembers w t past

structure Extends (w w' : World) : Prop where
  issued : w.issued ⊆ w'.issued
  accepted : w.accepted ⊆ w'.accepted

theorem Extends.refl (w : World) : Extends w w := ⟨List.Subset.refl _, List.Subset.refl _⟩

theorem Drawn.mono {issued issued' : List String} {n : String} (h : Drawn issued n)
    (hsub : issued ⊆ issued') : Drawn issued' n :=
  h.imp_right fun hn => hsub hn

theorem Vouched.mono {w w' : World} (h : Vouched P w m) (hw : Extends w w') : Vouched P w' m := by
  obtain ⟨a, ha, hrest⟩ := h
  exact ⟨a, hw.accepted ha, hrest⟩

theorem Vouched.congr {w : World} {m' : Machine} (h : Vouched P w m)
    (hk : verified m' = verified m) (hu : m'.metadata.uid = m.metadata.uid)
    (hn : m'.spec.nodeName = m.spec.nodeName) : Vouched P w m' := by
  unfold Vouched
  rwa [hk, hu, hn]

/-! ## Steps -/

def quiet : Event AttestOp.Ans → Bool
  | ⟨.listMachines, .ok _⟩ | ⟨.newNonce, _⟩ | ⟨.verify _ _ _, .ok ()⟩ => false
  | _ => true

inductive Effect (t : Nat) (w : World) : Event AttestOp.Ans → World → Prop
  | nothing {ev : Event AttestOp.Ans} (h : quiet ev = true) : Effect t w ev w
  | list {l : List Machine} (perm : l.Perm w.machines.rows) : Effect t w ⟨.listMachines, .ok l⟩ w
  | draw {n : String} : Effect t w ⟨.newNonce, n⟩ { w with issued := n :: w.issued }
  | accept {kind : String} {raw : List UInt8} {want : String} :
      Effect t w ⟨.verify kind raw want, .ok ()⟩
        { w with accepted := ⟨t, kind, raw, want, w.issued, w.machines.rows⟩ :: w.accepted }
  | patch {listed : Machine} {patch : Patch} {a : Except ApiError Unit} :
      Effect t w ⟨.patchMachine listed patch, a⟩
        { w with machines := w.machines.edit listed.key (annotate patch) fun _ => rfl }

theorem effect_of_outcomes {t : Nat} {w w' : World} {e : AttestOp} {a : e.Ans}
    (h : w' ∈ outcomes nodes t w e a) : Effect t w ⟨e, a⟩ w' := by
  have patched : ∀ {listed : Machine} {patch : Patch} {a : Except ApiError Unit},
      w' ∈ w.patchMachine listed.key patch → Effect t w ⟨.patchMachine listed patch, a⟩ w' := by
    intro listed patch a hw
    obtain ⟨_, hw⟩ := mem_ite_nil_right.mp hw
    rw [mem_singleton.mp hw]
    exact .patch
  match e, a, h with
  | .listMachines, .ok l, h =>
    obtain ⟨hperm, h⟩ := mem_ite_nil_right.mp h
    rw [mem_singleton.mp h]
    exact .list hperm
  | .listMachines, .error e, h =>
    rw [mem_singleton.mp h]
    exact .nothing rfl
  | .listNodes, .ok l, h =>
    obtain ⟨_, h⟩ := mem_ite_nil_right.mp h
    rw [mem_singleton.mp h]
    exact .nothing rfl
  | .listNodes, .error e, h =>
    rw [mem_singleton.mp h]
    exact .nothing rfl
  | .newNonce, n, h =>
    rw [mem_singleton.mp h]
    exact .draw
  | .verify kind raw want, .error e, h =>
    rw [mem_singleton.mp h]
    exact .nothing rfl
  | .verify kind raw want, .ok (), h =>
    rw [mem_singleton.mp h]
    exact .accept
  | .patchMachine listed patch, .ok (), h => exact patched h
  | .patchMachine listed patch, .error e, h =>
    rcases mem_cons.mp h with rfl | h
    · exact .nothing rfl
    · exact patched h

variable {t u : Nat} {w w' : World} {ev : Event AttestOp.Ans} {past : History}

theorem Effect.extends (h : Effect t w ev w') : Extends w w' := by
  cases h with
  | nothing | list => exact .refl w
  | patch => exact ⟨List.Subset.refl _, List.Subset.refl _⟩
  | draw => exact ⟨subset_cons_self _ _, List.Subset.refl _⟩
  | accept => exact ⟨List.Subset.refl _, subset_cons_self _ _⟩

theorem Effect.find_accepted (h : Effect t w ev w') (hu : u ≠ t) :
    w'.accepted.find? (·.tick = u) = w.accepted.find? (·.tick = u) := by
  cases h with
  | nothing | list | patch | draw => rfl
  | accept => exact List.find?_cons_of_neg (by simpa using Ne.symm hu)

theorem Remembers.mono (h : Remembers w t past) (hissued : w.issued ⊆ w'.issued)
    (hfind : w'.accepted.find? (·.tick = t) = w.accepted.find? (·.tick = t)) :
    Remembers w' t past where
  listed m hm := (h.listed m hm).mono hissued
  drawn n hn := hissued (h.drawn n hn)
  accepted kind raw want rest hpast := by
    rw [hfind]
    exact h.accepted kind raw want rest hpast

theorem Lists.cases (h : Lists (ev :: past) m) :
    Lists past m ∨ ∃ l, ev = ⟨.listMachines, .ok l⟩ ∧ m ∈ l := by
  obtain ⟨l, hl, hm⟩ := h
  rcases mem_cons.mp hl with rfl | hl
  · exact .inr ⟨l, rfl, hm⟩
  · exact .inl ⟨l, hl, hm⟩

theorem Remembers.call (h : Remembers w t past) (he : Effect t w ev w')
    (hdrawn : ∀ m ∈ w.machines.rows, Drawn w.issued (nonce m)) : Remembers w' t (ev :: past) where
  listed m hm := by
    rcases hm.cases with hold | ⟨l, rfl, hl⟩
    · exact (h.listed m hold).mono he.extends.issued
    · cases he with
      | nothing hq => cases hq
      | list perm => exact hdrawn m (perm.mem_iff.mp hl)
  drawn n hn := by
    rcases mem_cons.mp hn with rfl | hn
    · cases he with
      | nothing hq => cases hq
      | draw => exact mem_cons_self
    · exact he.extends.issued (h.drawn n hn)
  accepted kind raw want rest hpast := by
    obtain ⟨rfl, rfl⟩ := List.cons.inj hpast
    cases he with
    | nothing hq => cases hq
    | accept =>
      refine ⟨_, List.find?_cons_of_pos (by simp), rfl, rfl, fun m hm => ?_⟩
      exact h.listed m hm

theorem drawn_annotate {listed : Machine} (hrule : PatchRule P past listed patch)
    (hpast : Remembers w t past) (hm : Drawn w.issued (nonce m)) :
    Drawn w.issued (nonce (annotate patch m)) := by
  by_cases hne : nonce (annotate patch m) = ""
  · exact .inl hne
  · rcases StringMap.mem_or_get_of_patchAll hne with hmem | hold
    · exact .inr (hpast.drawn _ (hrule.nonce _ hmem))
    · have hsame : nonce (annotate patch m) = nonce m := hold
      rwa [hsame]

theorem vouched_annotate {listed : Machine} {a : Except ApiError Unit}
    (hrule : PatchRule P past listed patch) (hpast : Remembers c.world t past)
    (hG : Undisturbed nodes c (.call t ⟨.patchMachine listed patch, a⟩))
    (hmem : m ∈ c.world.machines.rows) (hkey : m.key = listed.key)
    (hm : Sealed nodes m → Vouched P c.world m) (hs : Sealed nodes (annotate patch m)) :
    Vouched P c.world (annotate patch m) := by
  rcases StringMap.mem_or_get_of_patchAll hs.1 with hmark | hold
  · -- the mark is new: the report has just been verified
    obtain ⟨huid, hwas⟩ := hG _ hmark m hmem hkey hs.2
    obtain ⟨hne, raw, rest, hlisted, hlast⟩ := hrule.verified _ hmark
    obtain ⟨acc, hfind, hkind, hwant, hissued⟩ := hpast.accepted _ _ _ _ hlast
    obtain ⟨m', hm', huid', hnode⟩ := hwas acc hfind
    refine ⟨acc, mem_of_find?_eq_some hfind, hkind,
      ⟨nonce listed, (hissued listed hlisted).resolve_left hne, ?_⟩, m', hm', huid', hnode⟩
    rw [hwant, ← huid]
    rfl
  · have hsame : verified (annotate patch m) = verified m := hold
    have hsealed : Sealed nodes m := by
      unfold Sealed at hs ⊢
      rwa [hsame] at hs
    exact (hm hsealed).congr hsame rfl rfl

theorem Attested.stored {e : AttestOp} {a : e.Ans} (h : Attested P nodes c.world c.past)
    (hpast : c.past t = some past) (hok : AttestRule P past e)
    (hG : Undisturbed nodes c (.call t ⟨e, a⟩)) (he : Effect t c.world ⟨e, a⟩ w') :
    (∀ m ∈ w'.machines.rows, Drawn w'.issued (nonce m)) ∧
      ∀ m ∈ w'.machines.rows, Sealed nodes m → Vouched P w' m := by
  -- only a patch changes a Machine
  have same : c.world.machines = w'.machines → (∀ m ∈ w'.machines.rows, Drawn w'.issued (nonce m)) ∧
        ∀ m ∈ w'.machines.rows, Sealed nodes m → Vouched P w' m := by
    intro hsame
    rw [← hsame]
    exact ⟨fun m hm => (h.drawn m hm).mono he.extends.issued,
      fun m hm hs => (h.vouched m hm hs).mono he.extends⟩
  cases he with
  | nothing | list | draw | accept => exact same rfl
  | @patch listed patch a =>
    have hrem := h.remembers t past hpast
    dsimp only
    refine ⟨fun m' hm' => ?_, fun m' hm' hs => ?_⟩
    · rcases mem_edit_iff.mp hm' with ⟨hm', -⟩ | ⟨m, hm, -, rfl⟩
      · exact h.drawn m' hm'
      · exact drawn_annotate hok hrem (h.drawn m hm)
    · rcases mem_edit_iff.mp hm' with ⟨hm', -⟩ | ⟨m, hm, hkey, rfl⟩
      · exact (h.vouched m' hm' hs).mono ⟨List.Subset.refl _, List.Subset.refl _⟩
      · exact (vouched_annotate hok hrem hG hm hkey (h.vouched m hm) hs).mono
          ⟨List.Subset.refl _, List.Subset.refl _⟩

/-- What others may store: a Machine without the mark and without a nonce, or one that was stored
as the same object and has its mark and nonce from there. -/
theorem upkeep_cases (h : Upkeep writers w w') (hm : m ∈ w'.machines.rows) :
    (verified m = "" ∧ nonce m = "") ∨
      ∃ old ∈ w.machines.rows, m.key = old.key ∧ m.metadata.uid = old.metadata.uid ∧
        (verified m = "" ∨ verified m = verified old) ∧ (nonce m = "" ∨ nonce m = nonce old) := by
  have kept : m ∈ w.machines.rows → ∃ old ∈ w.machines.rows, m.key = old.key ∧
      m.metadata.uid = old.metadata.uid ∧ (verified m = "" ∨ verified m = verified old) ∧
      (nonce m = "" ∨ nonce m = nonce old) :=
    fun hm => ⟨m, hm, rfl, rfl, .inr rfl, .inr rfl⟩
  have hverified : annAttestationVerified ∈ guardedAttestationKeys := mem_cons_self
  have hnonce : annAttestationNonce ∈ guardedAttestationKeys :=
    mem_cons_of_mem _ mem_cons_self
  cases h with
  | @create new username free fresh user admitted =>
    rcases mem_add hm with hm | rfl
    · exact .inr (kept hm)
    · -- there was nothing before, so nothing could be kept
      exact .inl ⟨(get_of_checkAttestationWrite admitted user hverified).elim id id,
        (get_of_checkAttestationWrite admitted user hnonce).elim id id⟩
  | @update old new username stored same user admitted =>
    obtain ⟨hold, hkey⟩ := Table.find_eq_some_iff.mp stored
    dsimp only [Table.replace] at hm
    rcases mem_edit_iff.mp hm with ⟨hm, -⟩ | ⟨x, hx, hkx, rfl⟩
    · exact .inr (kept hm)
    · rw [if_pos hkx]
      exact .inr ⟨old, hold, hkey.symm, same, get_of_checkAttestationWrite admitted user hverified,
        get_of_checkAttestationWrite admitted user hnonce⟩
  | assign =>
    dsimp only at hm
    rcases mem_edit_iff.mp hm with ⟨hm, -⟩ | ⟨x, hx, -, rfl⟩
    · exact .inr (kept hm)
    · exact .inr ⟨x, hx, rfl, rfl, .inr rfl, .inr rfl⟩
  | delete => exact .inr (kept (mem_filter.mp hm).1)

theorem upkeep_history (h : Upkeep writers w w') :
    w'.issued = w.issued ∧ w'.accepted = w.accepted := by
  cases h with
  | create | update | assign | delete => exact ⟨rfl, rfl⟩

theorem attested_inductive :
    Inductive (attestationHost P writers nodes) (fun _ => AttestRule P) (fun _ _ _ => True)
      (Undisturbed nodes) (Attested P nodes) where
  start := by
    intro w ps t h _
    refine ⟨h.drawn, h.vouched, forall_update ?_ fun u past _ => h.remembers u past⟩
    rintro past ⟨⟩
    exact ⟨fun m hm => (by obtain ⟨l, hl, -⟩ := hm; cases hl), nofun, nofun⟩
  call := by
    intro c t e a w past h hpast hok hG hw
    have he : Effect t c.world ⟨e, a⟩ w := effect_of_outcomes hw
    obtain ⟨hdrawn, hvouched⟩ := h.stored hpast hok hG he
    refine ⟨hdrawn, hvouched, forall_update ?_ fun u past' hu hp => ?_⟩
    · rintro past' ⟨⟩
      exact (h.remembers t past hpast).call he h.drawn
    · exact (h.remembers u past' hp).mono he.extends.issued (he.find_accepted hu)
  stop := by
    intro w ps t past r h _ _
    exact ⟨h.drawn, h.vouched, forall_update nofun fun u past' _ => h.remembers u past'⟩
  crash := by
    intro c t past h _ _ _
    exact ⟨h.drawn, h.vouched, forall_update nofun fun u past' _ => h.remembers u past'⟩
  env := by
    intro c w h hw hG
    obtain ⟨hissued, haccepted⟩ := upkeep_history hw
    have hext : Extends c.world w :=
      ⟨hissued ▸ List.Subset.refl _, haccepted ▸ List.Subset.refl _⟩
    refine ⟨fun m hm => ?_, fun m hm hs => ?_, fun t past hp => ?_⟩
    · rcases upkeep_cases hw hm with ⟨-, hn⟩ | ⟨old, hold, -, -, -, hn | hn⟩
      · exact .inl hn
      · exact .inl hn
      · rw [hn]
        exact (h.drawn old hold).mono hext.issued
    · rcases upkeep_cases hw hm with ⟨hv, -⟩ | ⟨old, hold, hkey, huid, hv | hv, -⟩
      · exact absurd hv hs.1
      · exact absurd hv hs.1
      · -- the mark was there, and the Machine did not move
        have hnode : m.spec.nodeName = old.spec.nodeName := hG old hold m hm hkey huid hs
        have hsealed : Sealed nodes old := by
          unfold Sealed at hs ⊢
          rwa [hv, hnode] at hs
        exact ((h.vouched old hold hsealed).congr hv huid hnode).mono hext
    · exact (h.remembers t past hp).mono hext.issued (by rw [haccepted])

/-! ## The result -/

/-- In a run whose steps all meet the condition, from Machines without marks and nonces, a Machine
that is marked as verified for the kind of its node has shown a report there, for its own UID and
a nonce of the controller. -/
theorem sealed_on_report {w₀ : World} {tr : List (Label AttestOp.Ans Unit Nat World)}
    (hrun : Run (attestationHost P writers nodes) (Undisturbed nodes) (.idle w₀) tr c)
    (h₀ : ∀ m ∈ w₀.machines.rows, verified m = "" ∧ nonce m = "") :
    ∀ m ∈ c.world.machines.rows, Sealed nodes m → Vouched P c.world m := by
  have hstart : Attested P nodes w₀ fun _ => none :=
    ⟨fun m hm => .inl (h₀ m hm).2, fun m hm hs => absurd (h₀ m hm).1 hs.1, nofun⟩
  have hend := attested_inductive.run (fun t p hp => by
    rw [show p = attestationTick P from hp]
    exact attestationTick_follows P) hrun (Conf.follows_idle _ _ w₀) hstart
  exact hend.vouched

instance (nodes : List Node) (m : Machine) : Decidable (Sealed nodes m) :=
  inferInstanceAs (Decidable (_ ∧ _))

instance (P : Primitives) (w : World) (m : Machine) : Decidable (Vouched P w m) :=
  inferInstanceAs (Decidable (∃ a ∈ w.accepted, _))

def snpNodes : List Node :=
  [⟨"node-a", [(labelConfidentialCapable, kindSNP)], []⟩,
    ⟨"node-b", [(labelConfidentialCapable, kindSNP)], []⟩]

def plainPrimitives : Primitives := ⟨id, fun s => some (s.toList.map fun c => c.toNat.toUInt8)⟩

def snpMachine (uid : String) : Machine :=
  let m := plainMachine "vm" "node-a" twoCores
  { m with metadata := { m.metadata with uid := uid, annotations := [(annConfidential, kindSNP)] } }

def oneSnpMachine : World := ⟨⟨[snpMachine "uid-1"], by decide⟩, ["uid-1"], [], []⟩

def reported : Machine :=
  annotate [(annAttestationNonce, some "nonce"), (annAttestationReport, some "report")]
    (snpMachine "uid-1")

def agreeable (w : World) : (e : AttestOp) → e.Ans
  | .listMachines => .ok w.machines.rows
  | .listNodes => .ok snpNodes
  | .newNonce => "nonce"
  | .verify _ _ _ => .ok ()
  | .patchMachine _ _ => .ok ()

abbrev snpHost := attestationHost plainPrimitives [] snpNodes

def ticks (t n : Nat) : List (Move AttestOp.Ans Unit Nat World) :=
  .start t (attestationTick plainPrimitives) :: List.replicate n (.call t agreeable 0)

def Unvouched (w : World) : Prop :=
  ∃ m ∈ w.machines.rows, Sealed snpNodes m ∧ ¬Vouched plainPrimitives w m

instance (w : World) : Decidable (Unvouched w) :=
  inferInstanceAs (Decidable (∃ m ∈ w.machines.rows, _))

/-- The mark comes to a Machine that replaced the verified one, and it goes with a Machine to
another node. -/
theorem mark_without_report :
    (∃ tr c, Run (attestationHost plainPrimitives [] snpNodes) (fun _ _ => True)
        (.idle oneSnpMachine) tr c ∧ Unvouched c.world ∧ "uid-2" ∈ c.world.uids) ∧
      ∃ tr c, Run (attestationHost plainPrimitives [] snpNodes) (fun _ _ => True)
        (.idle oneSnpMachine) tr c ∧ Unvouched c.world ∧ "uid-2" ∉ c.world.uids := by
  have may₁ : snpHost.Allows (ticks 1 4) := (rfl : attestationTick plainPrimitives = _)
  have may₂ : snpHost.Allows (ticks 2 3) := (rfl : attestationTick plainPrimitives = _)
  have asked := run_of_play (c := .idle oneSnpMachine) may₁ rfl
  have posted := asked.snoc trivial (.env (.update reported "agent" rfl rfl rfl (by decide)))
  have verified := posted.append (run_of_play may₂ rfl)
  constructor
  · have deleted := verified.snoc trivial (.env (.delete reported.key))
    have replaced := deleted.snoc trivial (.env (.create (snpMachine "uid-2") "user" rfl
      (by decide) rfl (by decide)))
    exact ⟨_, _, replaced.snoc trivial (step_of_move 2 agreeable 0 rfl), by decide +kernel⟩
  · have marked := verified.snoc trivial (step_of_move 2 agreeable 0 rfl)
    exact ⟨_, _, marked.snoc trivial (.env (.assign reported.key "node-b")),
      by decide +kernel⟩

def steady (c : Conf AttestOp.Ans Unit Nat World) : Label AttestOp.Ans Unit Nat World → Bool
  | .call t ⟨.patchMachine listed _, _⟩ =>
    c.world.machines.rows.all fun m => m.metadata.uid = listed.metadata.uid ∧
      (c.world.accepted.find? (·.tick = t)).all fun a => a.stored.any fun m' =>
        m'.metadata.uid = m.metadata.uid ∧ m'.spec.nodeName = m.spec.nodeName
  | .env _ => false
  | _ => true

theorem steady_sound (c : Conf AttestOp.Ans Unit Nat World) (l : Label AttestOp.Ans Unit Nat World)
    (h : steady c l = true) : Undisturbed nodes c l := by
  unfold Undisturbed
  split
  · intro kind hk m hm _ _
    simp only [steady, all_eq_true, decide_eq_true_eq] at h
    obtain ⟨huid, hacc⟩ := h m hm
    refine ⟨huid, fun acc hfind => ?_⟩
    rw [hfind, Option.all_some, any_eq_true] at hacc
    obtain ⟨m', hm', hsame⟩ := hacc
    exact ⟨m', hm', of_decide_eq_true hsame⟩
  · cases h
  · trivial

theorem sealed_on_report_settled :
    ∃ tr c, Run (attestationHost plainPrimitives [] snpNodes) (Undisturbed snpNodes)
        (.idle oneSnpMachine) tr c ∧
      ∃ m ∈ c.world.machines.rows, Sealed snpNodes m ∧ Vouched plainPrimitives c.world m := by
  have may₁ : snpHost.Allows (ticks 1 4) := (rfl : attestationTick plainPrimitives = _)
  have may₂ : snpHost.Allows (ticks 2 4) := (rfl : attestationTick plainPrimitives = _)
  have asked : Run snpHost (Undisturbed snpNodes) (.idle oneSnpMachine) _ _ :=
    play_sound steady_sound may₁ rfl
  have posted := asked.snoc (by
      intro m hm m' hm' _ _ _
      rw [mem_singleton.mp hm, mem_singleton.mp hm']
      rfl)
    (.env (.update reported "agent" rfl rfl rfl (by decide)))
  have run := posted.append (play_sound steady_sound may₂ rfl)
  refine ⟨_, _, run, _, .head _, ?_, sealed_on_report run (by decide) _ (.head _) ?_⟩
  · decide +kernel
  · decide +kernel

end Kairon.Attestation
