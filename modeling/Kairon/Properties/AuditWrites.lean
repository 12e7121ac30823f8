import Kairon.Audit.Survival
import Kairon.Infra.Session

/-!
# An audit log whose writes fail

The beginning of a line makes the file unreadable. A whole line that could not be synced stays
acceptable, but the handle does not know its hash, so that the next record is chained to the one
before it.

* `call_verified_iff`, `every_call_verified_iff`: after one call and after each of any calls
-/

namespace Kairon.Audit

open Infra JsonLine

variable {T : Type} (C : TimeCodec T) (n : Nat)

structure Call (T : Type) where
  event : Event T
  now : T
  answers : Answers := {}

structure Opened where
  log : FileLog
  file : Text

def Opened.call (s : Opened) (c : Call T) : Opened :=
  let o := s.log.appendWith C c.answers c.now c.event s.file
  ⟨o.log, o.file⟩

def Opened.calls (s : Opened) (cs : List (Call T)) : Opened := cs.foldl (·.call C) s

def LineWithin (now : T) (last : Text) (e : Event T) (n : Nat) : Prop :=
  ∀ at', C.marshal (stamp C now e) = .ok at' → lineSize at' last e ≤ n

/-- What a call needs that gets to write: a write that fails has written nothing, or the line but
for its newline; and a line that is written is chained to the last record of a file of whole lines,
is within the limit, and is of an event that is encoded the same way again. -/
def Opened.Safe (s : Opened) (c : Call T) : Prop :=
  Encodes C c.now c.event → c.answers.openFile = none → (∃ err, c.answers.write = some (0, err)) ∨
      (∀ n err, c.answers.write = some (n, err) → LineWithin C c.now s.log.last c.event n) ∧
        Accepted C c.now s.log c.event s.file (lastHash C s.file)

theorem lineWithin_iff {now : T} {last line : Text} {e : Event T} {n : Nat}
    (h : marshal C (recordAfter C now last e) = .ok line) :
    LineWithin C now last e n ↔ size line ≤ n := by
  obtain ⟨at', hat, -⟩ := (marshal_eq_ok_iff C).mp h
  rw [size_marshal_recordAfter C hat h]
  refine ⟨fun hw => hw at' hat, fun hle at₁ hat₁ => ?_⟩
  obtain rfl := Except.ok.inj (hat.symm.trans hat₁)
  exact hle

theorem valid_call {s : Opened} (h : valid s.log.last = true) (c : Call T) :
    valid (s.call C c).log.last = true := by
  by_cases henc : Encodes C c.now c.event
  · obtain ⟨line, -, happ⟩ := appendWith_of_encodes C c.answers s.log s.file henc
    simp only [Opened.call, happ, FileLog.write]
    -- the hash is taken over in the last of the branches only
    split
    · exact h
    · split
      · exact h
      · split
        · exact h
        · split
          · exact h
          · exact valid_digest _
  · obtain ⟨msg, happ⟩ := appendWith_of_not_encodes C c.answers s.log s.file henc
    rwa [Opened.call, happ]

theorem cut_line (line : Text) : (n = 0 ∧ cut n (line ++ [.char '\n']) = []) ∨
    (0 < n ∧ n < size line ∧ cut n (line ++ [.char '\n']) = cut n line) ∨
    (size line ≤ n ∧ ∃ eol, (eol = [] ∨ eol = [.char '\n']) ∧
      cut n (line ++ [.char '\n']) = line ++ eol) := by
  rcases Nat.eq_zero_or_pos n with rfl | hpos
  · exact .inl ⟨rfl, cut_zero _⟩
  rcases Nat.lt_trichotomy n (size line) with hlt | rfl | hgt
  · exact .inr (.inl ⟨hpos, hlt, cut_append_of_le hlt.le _⟩)
  · refine .inr (.inr ⟨le_rfl, [], .inl rfl, ?_⟩)
    rw [cut_append_of_le le_rfl, cut_of_size_le le_rfl, List.append_nil]
  · have hsize : size (line ++ [.char '\n']) = size line + 1 := by
      rw [size_append]
      rfl
    exact .inr (.inr ⟨hgt.le, _, .inr rfl, cut_of_size_le (by omega)⟩)

theorem call_verified_iff {s : Opened} (hs : Verified C s.file) (hvalid : valid s.log.last = true)
    (c : Call T) : Verified C (s.call C c).file ↔ s.Safe C c := by
  obtain ⟨⟨evs, last⟩, hscan⟩ := (verified_iff C).mp hs
  have hlast : lastHash C s.file = last := by rw [lastHash, hscan]
  unfold Opened.Safe
  by_cases henc : Encodes C c.now c.event
  swap
  · obtain ⟨msg, happ⟩ := appendWith_of_not_encodes C c.answers s.log s.file henc
    simpa [Opened.call, happ, henc] using hs
  obtain ⟨line, hline, happ⟩ := appendWith_of_encodes C c.answers s.log s.file henc
  have hwhole {eol : Text} (heol : eol = [] ∨ eol = [.char '\n']) :=
    verified_line_iff C hscan hvalid hline heol
  simp only [Opened.call, happ, FileLog.write, henc, true_implies, hlast]
  cases c.answers.openFile with
  | some err => simpa using hs
  | none =>
    cases c.answers.write with
    | none =>
      -- the whole line is there, whether or not the handle takes over its hash
      have hfile : Verified C (s.file ++ line ++ [.char '\n']) ↔
          Accepted C c.now s.log c.event s.file last := hwhole (.inr rfl)
      cases c.answers.sync <;> cases c.answers.close <;> simpa using hfile
    | some w =>
      obtain ⟨n, err⟩ := w
      obtain ⟨rfl, hcut⟩ | ⟨hpos, hlt, hcut⟩ | ⟨hle, eol, heol, hcut⟩ := cut_line n line
      · simpa [hcut] using hs
      · have hno := not_verified_cut C hscan hline hpos hlt
        have hlong : ¬LineWithin C c.now s.log.last c.event n := by
          rw [lineWithin_iff C hline]
          omega
        simp [hcut, hno, hlong, Nat.ne_of_gt hpos]
      · have hwithin := (lineWithin_iff C hline (n := n)).mpr hle
        have hpos : n ≠ 0 := by
          obtain ⟨at', -, rfl⟩ := (marshal_eq_ok_iff C).mp hline
          rintro rfl
          have hbrace := (Glyph.char '\x7b').length_bytes_pos
          rw [render, size_cons] at hle
          omega
        have hfile := hwhole heol
        rw [List.append_assoc] at hfile
        simpa [hcut, hwithin, hpos] using hfile

/-- Through a handle that was opened on an accepted file, calls are made whose steps may fail. The
file is accepted after every call exactly if every call is safe. -/
theorem every_call_verified_iff {file : Text} {l : FileLog} (hopen : openFileLog C file = .ok l)
    (cs : List (Call T)) : (∀ k, Verified C (Opened.calls C ⟨l, file⟩ (cs.take k)).file) ↔
      ∀ k c, cs[k]? = some c → (Opened.calls C ⟨l, file⟩ (cs.take k)).Safe C c := by
  obtain ⟨evs, hscan⟩ := (openFileLog_eq_ok_iff C).mp hopen
  exact Replay.forall_take_iff (I := fun s : Opened => valid s.log.last = true)
    (P := fun s => Verified C s.file)
    (fun _ c h => valid_call C h c) (fun _ c hvalid hs => call_verified_iff C hs hvalid c)
    (valid_last C (linked_of_scanChain C hscan)) ((verified_iff C).mpr ⟨_, hscan⟩) cs

def mcpCall (a : Answers) : Call Bool := ⟨createCall (ofChars "mcp".toList), true, a⟩

theorem encodes_createCall : Encodes oneDay true (createCall (ofChars "mcp".toList)) :=
  ⟨by decide, by decide, _, rfl⟩

theorem unsynced_line_verified : Verified oneDay (Opened.calls oneDay ⟨⟨[]⟩, []⟩
      [mcpCall { sync := some "input/output error" }]).file := by
  refine (every_call_verified_iff oneDay (l := ⟨[]⟩) rfl
    [mcpCall { sync := some "input/output error" }]).mpr (fun k c hk => ?_) 1
  match k with
  | 0 =>
    cases hk
    exact fun _ _ => .inr ⟨nofun, rfl, rfl, fits_createCall, .inl steady_createCall⟩
  | k + 1 => simp at hk

/-- A write that stops after one byte makes the file unreadable. After a sync that fails the file is
readable, but the append after it succeeds with a record that is chained to none. -/
theorem failed_sync_breaks : let start : Opened := ⟨⟨[]⟩, []⟩
    let s := start.call oneDay (mcpCall { sync := some "input/output error" })
    openFileLog oneDay [] = .ok start.log ∧ ¬Verified oneDay
        (start.call oneDay (mcpCall { write := some (1, "no space left on device") })).file ∧
      (s.log.appendWith oneDay {} true (createCall (ofChars "mcp".toList)) s.file).err = none ∧
      ¬Verified oneDay (s.call oneDay (mcpCall {})).file := by
  intro start s
  have hempty : Verified oneDay start.file := ⟨0, rfl⟩
  refine ⟨rfl, fun h => ?_, ?_, fun h => ?_⟩
  · -- the line is longer than the byte
    obtain ⟨err, herr⟩ | ⟨hwithin, -⟩ :=
      (call_verified_iff oneDay hempty rfl _).mp h encodes_createCall rfl
    · cases herr
    · exact absurd (hwithin 1 _ rfl _ rfl) (by decide)
  · obtain ⟨line, -, happ⟩ := appendWith_of_encodes oneDay {} s.log s.file encodes_createCall
    exact congrArg Outcome.err happ
  · -- the file ends in the hash of the first record, and the handle has none
    obtain ⟨r, l', file', happ⟩ := append_createCall (p := ofChars "mcp".toList) (by decide) ⟨[]⟩ []
    obtain ⟨-, -, rfl, rfl, line, hline, rfl⟩ := (append_eq_ok_iff oneDay).mp happ
    have hnone : scanChain oneDay [] = .ok ([], []) := rfl
    obtain ⟨e', hscan⟩ := (scanChain_append_iff oneDay hnone rfl happ).mpr
      ⟨rfl, rfl, fits_createCall, .inl steady_createCall⟩
    obtain ⟨line', hline', hwith⟩ := appendWith_of_encodes oneDay
      { sync := some "input/output error" } ⟨[]⟩ [] encodes_createCall
    obtain rfl := Except.ok.inj (hline.symm.trans hline')
    have hs : s = ⟨⟨[]⟩, [] ++ line ++ [.char '\n']⟩ :=
      congrArg (fun o : Outcome Bool => (⟨o.log, o.file⟩ : Opened)) hwith
    obtain ⟨err, herr⟩ | ⟨-, hlast, -⟩ :=
      (call_verified_iff oneDay (hs ▸ (verified_iff oneDay).mpr ⟨_, hscan⟩) (hs ▸ rfl) _).mp h
        encodes_createCall rfl
    · cases herr
    · rw [hs, lastHash, hscan, recordAfter_hash] at hlast
      exact digest_ne_nil _ hlast.symm

end Kairon.Audit
