import Kairon.Audit.Survival

/-!
# Altered audit logs

The hash of a record pins the record and those before it, but nothing in the file says where it
ends, and a line in another spelling has the same hash. An altered log in which no hash was computed
anew is rejected exactly if it is not, record for record, a beginning of the log.

* `verified_of_beginning`, `beginning_of_verified`: the two directions
* `altered_rejected_iff`: which alterations are rejected
-/

namespace Kairon.Audit

open Infra JsonLine List

variable {T : Type} (C : TimeCodec T) {e r : Event T}

/-! ## Logs that appends have written -/

/-- A log, its records and the handle, from an empty file on. The handle may be closed and the log
opened again. -/
inductive Written : Text → List (Event T) → FileLog → Prop
  | start : Written [] [] ⟨[]⟩
  | append {file file' : Text} {rs : List (Event T)} {l l' : FileLog} {now : T} {e r : Event T} :
    Written file rs l → l.append C now e file = .ok (r, l', file') → Written file' (rs ++ [r]) l'
  | reopen {file : Text} {rs : List (Event T)} {l l' : FileLog} :
    Written file rs l → openFileLog C file = .ok l' → Written file rs l'

/-- The lines are those of the records, which form a chain up to the hash that the handle has. -/
structure Log (file : Text) (rs : List (Event T)) (l : FileLog) : Prop where
  complete : complete file = true
  lines : (splitLines [] file).map .ok = rs.map (marshal C)
  linked : (chain C).Linked rs l.last

variable {C} {file g : Text} {rs es : List (Event T)} {l : FileLog}

theorem Log.append {file' : Text} {l' : FileLog} {now : T} (h : Log C file rs l)
    (happ : l.append C now e file = .ok (r, l', file')) : Log C file' (rs ++ [r]) l' := by
  obtain ⟨-, -, rfl, rfl, line, hline, rfl⟩ := (append_eq_ok_iff C).mp happ
  refine ⟨?_, ?_, ?_⟩
  · rw [Audit.complete, List.getLast?_concat]
    rfl
  · rw [splitLines_append_line h.complete (newline_notMem_marshal C hline), map_append,
      h.lines, map_append, map_singleton, map_singleton, hline]
  · exact h.linked.snoc (recordAfter_prevHash C now l.last e) (recordAfter_hash C now l.last e).symm

theorem Log.reopen {l' : FileLog} (h : Log C file rs l) (hopen : openFileLog C file = .ok l') :
    l'.last = l.last := by
  obtain ⟨es, hscan⟩ := (openFileLog_eq_ok_iff C).mp hopen
  obtain ⟨hread, hes⟩ := (scanChain_eq_ok_iff C).mp hscan
  unfold records at hread
  have hlines := h.lines
  rcases rs.eq_nil_or_concat with rfl | ⟨rs, r, rfl⟩
  · rw [map_eq_nil_iff.mp hlines] at hread
    cases hread
    rw [HashChain.linked_nil_iff.mp hes, HashChain.linked_nil_iff.mp h.linked]
  · rw [concat_eq_append] at h hlines
    rw [map_append, map_eq_append_iff] at hlines
    obtain ⟨ls, ls', hsplit, -, hlast⟩ := hlines
    obtain ⟨line, rfl, hline⟩ := map_eq_singleton_iff.mp hlast
    rw [hsplit, mapM_readLine_concat_iff] at hread
    obtain ⟨es₀, e, -, he, rfl⟩ := hread
    obtain ⟨-, hhash, hlast⟩ := HashChain.linked_concat_iff.mp h.linked
    obtain ⟨-, -, hlast'⟩ := HashChain.linked_concat_iff.mp hes
    obtain ⟨at', t, -, -, hr⟩ := unmarshalEvent_marshal C hline.symm
    have hunmarshal := ((readLine_eq_some_iff C).mp he).2
    rw [dropCR_marshal C hline.symm, hr] at hunmarshal
    obtain rfl := Option.some.inj hunmarshal
    rw [hlast, hlast']
    change ofChars (clean ((chain C).hash r)) = (chain C).hash r
    rw [← hhash]
    exact valid_iff.mp (valid_digest _)

theorem Written.log (h : Written C file rs l) : Log C file rs l := by
  induction h with
  | start => exact ⟨rfl, rfl, .nil⟩
  | append _ happ ih => exact ih.append happ
  | reopen _ hopen ih => exact ⟨ih.complete, ih.lines, (ih.reopen hopen).symm ▸ ih.linked⟩

/-! ## Records with one hash -/

theorem Log.marshal_ok (h : Log C file rs l) (hr : r ∈ rs) : ∃ line, marshal C r = .ok line := by
  have hmem : marshal C r ∈ rs.map (marshal C) := mem_map_of_mem hr
  rw [← h.lines] at hmem
  obtain ⟨line, -, hline⟩ := mem_map.mp hmem
  exact ⟨line, hline.symm⟩

theorem prevHash_of_linked {last : Text} (h : (chain C).Linked rs last)
    (hr : r ∈ rs) : r.text .prevHash = [] ∨ ∃ t, r.text .prevHash = digest t := by
  obtain ⟨i, hi⟩ := mem_iff_getElem?.mp hr
  rcases mem_cons.mp (mem_of_getElem? (h.getElem?_prev hi).1) with hprev | hprev
  · exact .inl hprev
  · obtain ⟨s, hs, heq⟩ := mem_map.mp hprev
    exact .inr ⟨chainText C s, heq.symm.trans (h.digest_eq hs).symm⟩

theorem eq_of_append_newline_eq {s s' t t' : Text} (hs : Glyph.char '\n' ∉ s)
    (hs' : Glyph.char '\n' ∉ s') (h : s ++ .char '\n' :: t = s' ++ .char '\n' :: t') :
    s = s' ∧ t = t' := by
  have hsplit := congrArg (splitLines []) h
  rw [splitLines_of_newline_notMem hs, splitLines_of_newline_notMem hs'] at hsplit
  obtain rfl : s = s' := (List.cons.inj hsplit).1
  exact ⟨rfl, (List.cons.inj (append_cancel_left h)).2⟩

def readable (C : TimeCodec T) (file : Text) : List (Event T) :=
  (splitLines [] file).filterMap (readLine C)

theorem filterMap_readLine {ls : List Text} (h : ls.mapM (readLine C) = some es) :
    ls.filterMap (readLine C) = es := by
  induction ls using List.reverseRecOn generalizing es with
  | nil =>
    cases h
    rfl
  | append_singleton ls line ih =>
    obtain ⟨es₀, e, hls, he, rfl⟩ := (mapM_readLine_concat_iff C).mp h
    rw [filterMap_append, ih hls, filterMap_cons, he]
    rfl

/-- No two texts that are hashed for these records have one digest. -/
def Separated (C : TimeCodec T) (rs : List (Event T)) : Prop :=
  ∀ a ∈ rs, ∀ b ∈ rs,
    Sha256.sum256 (bytes (chainText C a)) = Sha256.sum256 (bytes (chainText C b)) →
      bytes (chainText C a) = bytes (chainText C b)

section Chains

variable {last last' : Text} (h : (chain C).Linked rs last) (h' : (chain C).Linked es last')
  (hsep : ∀ a ∈ rs, ∀ b ∈ es,
    Sha256.sum256 (bytes (chainText C a)) = Sha256.sum256 (bytes (chainText C b)) →
      bytes (chainText C a) = bytes (chainText C b))
include h h' hsep

theorem eq_of_hash_eq (hr : r ∈ rs) (he : e ∈ es) (heq : r.text .hash = e.text .hash) :
    r.text .prevHash = e.text .prevHash ∧ (marshal C (r.set .hash [])).toOption.getD [] =
        (marshal C (e.set .hash [])).toOption.getD [] := by
  have hprev := prevHash_of_linked h hr
  have hprev' := prevHash_of_linked h' he
  have hvalid {t : Text} (ht : t = [] ∨ ∃ u, t = digest u) : valid t = true := by
    obtain rfl | ⟨u, rfl⟩ := ht
    · rfl
    · exact valid_digest u
  have hline {t : Text} (ht : t = [] ∨ ∃ u, t = digest u) : Glyph.char '\n' ∉ t := by
    obtain rfl | ⟨u, rfl⟩ := ht
    · simp
    · exact newline_notMem_digest u
  have hdigest : digest (chainText C r) = digest (chainText C e) :=
    (h.digest_eq hr).trans (heq.trans (h'.digest_eq he).symm)
  have htext : chainText C r = chainText C e :=
    eq_of_bytes_eq (valid_chainText C (hvalid hprev)) (valid_chainText C (hvalid hprev'))
      (hsep r hr e he (digest_eq_iff.mp hdigest))
  exact eq_of_append_newline_eq (hline hprev) (hline hprev') htext

theorem pinned : (chain C).Pinned rs es :=
  fun _ hr _ he heq => (eq_of_hash_eq h h' hsep hr he heq).1

end Chains

/-! ## Altered logs -/

def respelled (C : TimeCodec T) (file : Text) : Option (List (Except String Text)) :=
  (records C file).map fun es => es.map (marshal C)

/-- The altered file is, record for record, a beginning of the log. -/
def Beginning (C : TimeCodec T) (g file : Text) : Prop :=
  ∃ ls, respelled C g = some ls ∧ ls <+: (splitLines [] file).map .ok

/-- No hash was computed anew: a record with a hash that is right for it has one of the log's. -/
def NoNewHash (C : TimeCodec T) (rs : List (Event T)) (g : Text) : Prop :=
  ∀ e ∈ readable C g, chainHash C e = e.text .hash → e.text .hash ∈ rs.map fun r => r.text .hash

instance : Decidable (Beginning C g file) :=
  decidable_of_iff
    ((respelled C g).any (fun ls => decide (ls <+: (splitLines [] file).map .ok)) = true)
    (by simp [Beginning, Option.any_eq_true])

/-- What a record of the log and one that was read have in common if they have the encoding in
common, and the other way round. -/
theorem marshal_eq_iff (h : Log C file rs l) (hr : r ∈ rs) (he : ∀ f, valid (e.text f) = true) :
    marshal C e = marshal C r ↔ e.text .prevHash = r.text .prevHash ∧ e.text .hash = r.text .hash ∧
        (marshal C (r.set .hash [])).toOption.getD [] =
          (marshal C (e.set .hash [])).toOption.getD [] := by
  obtain ⟨line, hline⟩ := h.marshal_ok hr
  have hset {e : Event T} (f : TextField) : clean ((e.set .hash []).text f) =
      if f = .hash then [] else clean (e.text f) := by
    by_cases hf : f = .hash <;> simp [hf]
  constructor
  · intro heq
    obtain ⟨htime, htext⟩ := marshal_inj C (heq.trans hline) hline
    have heq {f : TextField} (hr : valid (r.text f) = true) : e.text f = r.text f := by
      rw [← valid_iff.mp (he f), htext f, valid_iff.mp hr]
    have hbody : marshal C (r.set .hash []) = marshal C (e.set .hash []) :=
      marshal_congr C htime.symm fun f => by rw [hset, hset, htext]
    refine ⟨heq ?_, heq ?_, by rw [hbody]⟩
    · obtain hprev | ⟨t, hprev⟩ := prevHash_of_linked h.linked hr
      · rw [hprev]
        rfl
      · rw [hprev]
        exact valid_digest t
    · have hhash : digest (chainText C r) = r.text .hash := h.linked.digest_eq hr
      exact hhash ▸ valid_digest _
  · rintro ⟨-, hhash, hbody⟩
    obtain ⟨at', hat, -⟩ := (marshal_eq_ok_iff C).mp hline
    have hr' : marshal C (r.set .hash []) = .ok (render (members at' (r.set .hash []))) :=
      (marshal_eq_ok_iff C).mpr ⟨at', hat, rfl⟩
    have he' : marshal C (e.set .hash []) = .ok (render (members at' (r.set .hash []))) := by
      rw [hr'] at hbody
      cases hm : marshal C (e.set .hash []) with
      | error msg => simp [hm, Except.toOption, render] at hbody
      | ok body => simpa [hm, Except.toOption, eq_comm] using hbody
    obtain ⟨htime, htext⟩ := marshal_inj C he' hr'
    refine marshal_congr C htime fun f => ?_
    by_cases hf : f = .hash
    · rw [hf, hhash]
    · simpa [hset, hf] using htext f

theorem valid_of_readable (he : e ∈ readable C g) (f : TextField) : valid (e.text f) = true := by
  obtain ⟨line, -, hline⟩ := mem_filterMap.mp he
  exact valid_of_unmarshalEvent C ((readLine_eq_some_iff C).mp hline).2 f

/-- A file with the records of a beginning of the log is accepted, in whatever spelling. -/
theorem verified_of_beginning (h : Log C file rs l) (hg : Beginning C g file) :
    ∃ s, scanChain C g = .ok s := by
  obtain ⟨ls, hls, hpre⟩ := hg
  obtain ⟨es, hes, rfl⟩ := Option.map_eq_some_iff.mp hls
  rw [h.lines] at hpre
  have hkeys : (es.map fun e => ((chain C).prev e, (chain C).hash e, (chain C).text e)) <+:
      rs.map fun r => ((chain C).prev r, (chain C).hash r, (chain C).text r) := by
    refine map_isPrefix_map hpre fun e he r hr heq => ?_
    have hvalid := valid_of_readable (C := C) (g := g) (filterMap_readLine hes ▸ he)
    obtain ⟨hprev, hhash, hbody⟩ := (marshal_eq_iff h hr hvalid).mp heq
    simp only [chain, chainText, hprev, hhash, hbody]
  obtain ⟨rest, hrest⟩ := hkeys
  obtain ⟨rs₁, rs₂, rfl, hrs₁, -⟩ := map_eq_append_iff.mp hrest.symm
  obtain ⟨last', hlinked⟩ := h.linked.of_isPrefix (prefix_append rs₁ rs₂)
  exact ⟨_, (scanChain_eq_ok_iff C).mpr ⟨hes, hlinked.of_map_eq hrs₁.symm⟩⟩

/-- A file that is accepted has the records of a beginning of the log, by the chain of hashes. -/
theorem beginning_of_verified (h : Log C file rs l)
    (hsep : Separated C (rs ++ readable C g)) (hnew : NoNewHash C rs g)
    {s : List (Event T) × Text} (hs : scanChain C g = .ok s) : Beginning C g file := by
  obtain ⟨es, last'⟩ := s
  obtain ⟨hread, hes⟩ := (scanChain_eq_ok_iff C).mp hs
  obtain rfl : readable C g = es := filterMap_readLine hread
  have hself := fun a ha b hb => hsep a (mem_append_left _ ha) b (mem_append_left _ hb)
  have hcross := fun a ha b hb => hsep a (mem_append_left _ ha) b (mem_append_right _ hb)
  have hhashes : (readable C g).map (chain C).hash <+: rs.map (chain C).hash := by
    refine h.linked.isPrefix hes (fun r hr => ?_) (pinned h.linked h.linked hself)
      (pinned h.linked hes hcross) fun e he => hnew e he (hes.digest_eq he)
    rw [← h.linked.digest_eq hr]
    exact digest_ne_nil _
  refine ⟨_, by rw [respelled, hread]; rfl, ?_⟩
  rw [h.lines]
  refine map_isPrefix_map hhashes fun e he r hr heq => ?_
  obtain ⟨hprev, hbody⟩ := eq_of_hash_eq h.linked hes hcross hr he heq.symm
  exact (marshal_eq_iff h hr (valid_of_readable he)).mpr ⟨hprev.symm, heq, hbody⟩

/-- A log that appends have written is altered, and no hash is computed anew. If the texts that are
hashed have different digests, the altered file is rejected exactly if it is not, record for record,
a beginning of the log. -/
theorem altered_rejected_iff (hw : Written C file rs l) (hsep : Separated C (rs ++ readable C g))
    (hnew : NoNewHash C rs g) : (∀ n, verifyFile C g ≠ .ok n) ↔ ¬Beginning C g file := by
  have hiff : (∃ n, verifyFile C g = .ok n) ↔ Beginning C g file := by
    constructor
    · rintro ⟨n, hn⟩
      obtain ⟨s, hs, -⟩ := (verifyFile_eq_ok_iff C).mp hn
      exact beginning_of_verified hw.log hsep hnew hs
    · intro hb
      obtain ⟨s, hs⟩ := verified_of_beginning hw.log hb
      exact ⟨_, (verifyFile_eq_ok_iff C).mpr ⟨s, hs, rfl⟩⟩
  rw [← hiff, not_exists]

theorem repeated_line_rejected :
    ∃ file rs l, Written oneDay file rs l ∧ ∀ n, verifyFile oneDay (file ++ file) ≠ .ok n := by
  obtain ⟨r, l, file, happ⟩ := append_createCall (p := ofChars "mcp".toList) (by decide) ⟨[]⟩ []
  have hrun : ((FileLog.append oneDay true ⟨[]⟩ (createCall (ofChars "mcp".toList)) []).map
      fun (a : Event Bool × FileLog × Text) => decide ((∀ e ∈ readable oneDay (a.2.2 ++ a.2.2),
        chainText oneDay e = chainText oneDay a.1 ∧ e.text .hash = a.1.text .hash) ∧
          ¬Beginning oneDay (a.2.2 ++ a.2.2) a.2.2)) = .ok true := by decide +kernel
  rw [happ] at hrun
  obtain ⟨hsame, hb⟩ := of_decide_eq_true (Except.ok.inj hrun)
  have hw : Written oneDay file [r] l := Written.start.append happ
  -- the texts that are hashed are one and the same
  have htext : ∀ e ∈ [r] ++ readable oneDay (file ++ file),
      chainText oneDay e = chainText oneDay r :=
    forall_mem_cons.mpr ⟨rfl, fun e he => (hsame e he).1⟩
  have hsep : Separated oneDay ([r] ++ readable oneDay (file ++ file)) :=
    fun a ha b hb _ => by rw [htext a ha, htext b hb]
  exact ⟨file, [r], l, hw, (altered_rejected_iff hw hsep
    fun e he _ => by simp [(hsame e he).2]).mpr hb⟩

/-- A log of two records without its last line is accepted, as a log of one. -/
theorem shortened_log_accepted :
    ∃ file rs l g line, Written oneDay file rs l ∧ splitLines [] file = splitLines [] g ++ [line] ∧
      NoNewHash oneDay rs g ∧ verifyFile oneDay g = .ok 1 := by
  obtain ⟨r₁, l₁, g, h₁⟩ := append_createCall (p := ofChars "mcp".toList) (by decide) ⟨[]⟩ []
  obtain ⟨r₂, l₂, file, h₂⟩ := append_createCall (p := ofChars "ops".toList) (by decide) l₁ g
  have hg : Written oneDay g [r₁] l₁ := Written.start.append h₁
  obtain ⟨-, -, -, -, line, hline, rfl⟩ := (append_eq_ok_iff oneDay).mp h₂
  have hempty : scanChain oneDay [] = .ok ([], []) := rfl
  obtain ⟨e, hscan⟩ := (scanChain_append_iff oneDay hempty rfl h₁).mpr
    ⟨rfl, rfl, fits_createCall, .inl steady_createCall⟩
  obtain ⟨hread, hlinked⟩ := (scanChain_eq_ok_iff oneDay).mp hscan
  have hhash : e.text .hash = r₁.text .hash := by
    have hlast : (chain oneDay).Linked ([] ++ [e]) l₁.last := hlinked
    obtain ⟨-, -, -, rfl, -⟩ := (append_eq_ok_iff oneDay).mp h₁
    exact (HashChain.linked_concat_iff.mp hlast).2.2.symm
  refine ⟨_, _, _, g, line, hg.append h₂,
    splitLines_append_line hg.log.complete (newline_notMem_marshal oneDay hline), ?_,
    (verifyFile_eq_ok_iff oneDay).mpr ⟨_, hscan, rfl⟩⟩
  intro e' he' _
  have hreadable : readable oneDay g = [e] := filterMap_readLine hread
  rw [hreadable, mem_singleton] at he'
  simp [he', hhash]

end Kairon.Audit
