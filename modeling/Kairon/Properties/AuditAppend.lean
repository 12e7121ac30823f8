import Kairon.Audit.Survival
import Kairon.Infra.Session

/-!
# An audit log after appends

`VerifyFile` recomputes the hash of each record from what it reads of its line. An append does not
look at the length of its line, or at whether the file ends in a newline. Servers that share a file
each have a handle with the hash of the last record when it was opened or of the record it has
appended itself.

* `append_verified_iff`: after one append
* `step_verified_iff`, `every_step_verified_iff`: after each of any steps of any handles
-/

namespace Kairon.Audit

open Infra JsonLine

variable {T : Type} (C : TimeCodec T)

/-- After an append through the one handle of an accepted file, the file is accepted with one record
more exactly if it ended in a newline, the line is within the limit of the scanner, and the time of
the event is written the same way after it was read, or the two texts collide. -/
theorem append_verified_iff {file file' : Text} {n : Nat} (hfile : verifyFile C file = .ok n)
    {l l' : FileLog} (hopen : openFileLog C file = .ok l) {now : T} {e r : Event T}
    (happ : l.append C now e file = .ok (r, l', file')) : verifyFile C file' = .ok (n + 1) ↔
      complete file = true ∧ Fits C now l.last e ∧ (Steady C now e ∨ Collides C now l.last e) := by
  obtain ⟨evs, hscan⟩ := (openFileLog_eq_ok_iff C).mp hopen
  obtain ⟨s, hs, hn⟩ := (verifyFile_eq_ok_iff C).mp hfile
  obtain rfl := Except.ok.inj (hscan.symm.trans hs)
  have hvalid := valid_last C (linked_of_scanChain C hscan)
  have hiff := scanChain_append_iff C hscan hvalid happ
  simp only [Accepted, true_and] at hiff
  rw [← hiff, verifyFile_eq_ok_iff]
  constructor
  · rintro ⟨s', hs', -⟩
    obtain ⟨e', rfl⟩ := eq_of_scanChain_append C hscan hvalid happ hs'
    exact ⟨e', hs'⟩
  · rintro ⟨e', he'⟩
    exact ⟨_, he', by simp [← hn]⟩

theorem append_verified_first : ∃ r l' file',
      FileLog.append oneDay true ⟨[]⟩ (createCall (ofChars "mcp".toList)) [] = .ok (r, l', file') ∧
        verifyFile oneDay file' = .ok 1 := by
  obtain ⟨r, l', file', happ⟩ := append_createCall (p := ofChars "mcp".toList) (by decide) ⟨[]⟩ []
  exact ⟨r, l', file', happ, (append_verified_iff oneDay (n := 0) rfl rfl happ).mpr
    ⟨rfl, fits_createCall, .inl steady_createCall⟩⟩

/-- A log of one record whose last line has no newline is accepted and opened. The next record is
glued to that line, which nobody can read any more. -/
theorem glued_record_rejected : ∃ file l r l' file', verifyFile oneDay file = .ok 1 ∧
      openFileLog oneDay file = .ok l ∧
      l.append oneDay true (createCall (ofChars "ops".toList)) file = .ok (r, l', file') ∧
      verifyFile oneDay file' = .error (.unreadable 1) := by
  obtain ⟨r₁, l, line, h₁⟩ := append_createCall (p := ofChars "mcp".toList) (by decide) ⟨[]⟩ []
  have hrun : ((FileLog.append oneDay true ⟨[]⟩ (createCall (ofChars "mcp".toList)) []).map
      fun (a : Event Bool × FileLog × Text) => decide (verifyFile oneDay a.2.2.dropLast = .ok 1 ∧
        openFileLog oneDay a.2.2.dropLast = .ok a.2.1 ∧
        ((a.2.1.append oneDay true (createCall (ofChars "ops".toList)) a.2.2.dropLast).map
          fun b => verifyFile oneDay b.2.2) = .ok (.error (.unreadable 1)))) = .ok true := by
    decide +kernel
  rw [h₁] at hrun
  obtain ⟨hverify, hopen, hglued⟩ := of_decide_eq_true (Except.ok.inj hrun)
  obtain ⟨r, l', file', h₂⟩ :=
    append_createCall (p := ofChars "ops".toList) (by decide) l line.dropLast
  rw [h₂] at hglued
  exact ⟨_, l, r, l', file', hverify, hopen, h₂, Except.ok.inj hglued⟩

structure Shared where
  file : Text
  handles : List FileLog

inductive Act (T : Type) where
  | open
  | append (i : Nat) (now : T) (e : Event T)

variable (s : Shared) (n : Nat)

/-- One step, of which a failing one changes nothing. The write of a line is atomic. -/
def step : Act T → Shared
  | .open =>
    match openFileLog C s.file with
    | .ok l => { s with handles := s.handles ++ [l] }
    | .error _ => s
  | .append i now e =>
    match s.handles[i]? with
    | some l =>
      match l.append C now e s.file with
      | .ok (_, l', file') => ⟨file', s.handles.set i l'⟩
      | .error _ => s
    | none => s

def run (acts : List (Act T)) : Shared := acts.foldl (step C) s

/-- What a step needs: an append that succeeds is made through a handle that knows the hash of the
last record, and of an event that the file stays acceptable with. -/
def Sound : Act T → Prop
  | .open => True
  | .append i now e => ∀ l, s.handles[i]? = some l → (l.append C now e s.file).isOk = true →
    Accepted C now l e s.file (lastHash C s.file)

def Valid : Prop := ∀ l ∈ s.handles, valid l.last = true

theorem Valid.step {s : Shared} (h : Valid s) (a : Act T) : Valid (step C s a) := by
  cases a with
  | «open» =>
    simp only [Audit.step]
    split
    · rename_i l hopen
      obtain ⟨evs, hscan⟩ := (openFileLog_eq_ok_iff C).mp hopen
      intro l' hl'
      rcases List.mem_append.mp hl' with hl' | hl'
      · exact h l' hl'
      · obtain rfl := List.mem_singleton.mp hl'
        exact valid_last C (linked_of_scanChain C hscan)
    · exact h
  | append i now e =>
    simp only [Audit.step]
    split
    · split
      · rename_i l hl r l' file' happ
        obtain ⟨-, -, rfl, rfl, -⟩ := (append_eq_ok_iff C).mp happ
        intro l₁ hl₁
        rcases List.mem_or_eq_of_mem_set hl₁ with hl₁ | rfl
        · exact h l₁ hl₁
        · rw [recordAfter_hash]
          exact valid_digest _
      · exact h
    · exact h

theorem step_verified_iff {s : Shared} (hs : Verified C s.file) (hvalid : Valid s) (a : Act T) :
    Verified C (step C s a).file ↔ Sound C s a := by
  cases a with
  | «open» =>
    simp only [Sound, iff_true, Audit.step]
    split <;> exact hs
  | append i now e =>
    simp only [Sound, Audit.step]
    cases hl : s.handles[i]? with
    | none => simpa using hs
    | some l =>
      cases happ : l.append C now e s.file with
      | error msg => simpa [happ, Except.isOk, Except.toBool] using hs
      | ok a =>
        obtain ⟨⟨evs, last⟩, hscan⟩ := (verified_iff C).mp hs
        have hlast : lastHash C s.file = last := by rw [lastHash, hscan]
        have hl' := hvalid l (List.mem_of_getElem? hl)
        simp only [Option.some.injEq, forall_eq', happ, Except.isOk, Except.toBool, true_implies,
          hlast, verified_iff, ← scanChain_append_iff C hscan hl' happ]
        constructor
        · rintro ⟨s', hs'⟩
          obtain ⟨e', rfl⟩ := eq_of_scanChain_append C hscan hl' happ hs'
          exact ⟨e', hs'⟩
        · rintro ⟨e', he'⟩
          exact ⟨_, he'⟩

/-- Handles are opened on an accepted file and append to it in any order. The file is accepted after
every step exactly if every append is made through a handle that knows the hash of the last record,
and of an event that the file stays acceptable with. -/
theorem every_step_verified_iff {file : Text} (hfile : Verified C file) (acts : List (Act T)) :
    (∀ k, Verified C (run C ⟨file, []⟩ (acts.take k)).file) ↔
      ∀ k a, acts[k]? = some a → Sound C (run C ⟨file, []⟩ (acts.take k)) a :=
  Replay.forall_take_iff (I := Valid) (fun _ a h => h.step C a)
    (fun _ a hvalid hs => step_verified_iff C hs hvalid a) (fun _ hl => absurd hl (by simp)) hfile
    acts

theorem one_handle_verified : Verified oneDay (run oneDay ⟨[], []⟩
      [.open, .append 0 true (createCall (ofChars "mcp".toList))]).file := by
  refine (every_step_verified_iff oneDay ⟨0, rfl⟩
    [.open, .append 0 true (createCall (ofChars "mcp".toList))]).mpr (fun k a hk => ?_) 2
  match k with
  | 0 =>
    cases hk
    trivial
  | 1 =>
    cases hk
    rintro l hl -
    obtain rfl : (⟨[]⟩ : FileLog) = l := Option.some.inj hl
    exact ⟨rfl, rfl, fits_createCall, .inl steady_createCall⟩
  | k + 2 => simp at hk

/-- Both handles were opened before the first record was written, so that the second record is
chained to none. -/
theorem second_handle_breaks : verifyFile oneDay [] = .ok 0 ∧ verifyFile oneDay (run oneDay ⟨[], []⟩
        [.open, .open, .append 0 true (createCall (ofChars "mcp".toList)),
          .append 1 true (createCall (ofChars "ops".toList))]).file = .error (.broken 2) :=
  ⟨rfl, by decide +kernel⟩

end Kairon.Audit
