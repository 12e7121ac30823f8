import Kairon.Migration.Knowledge

/-!
# Finished sessions

`commit`, `abort` and the reaper work under the lock of the session; `prepare` and `heartbeat` do
not. A session that has been committed or aborted keeps its phase exactly as long as no `Put` of
the latter two lands on it.

* `finished_phase_step`, `finished_phase_stable`: a step and a run without such a `Put`
* `sections_exclusive`: what the lock of a session does guarantee
-/

namespace Kairon.Migration

open Infra Host

variable {D : Type} {DAns : D → Type} {X : Type}
  {S : Server DAns} {services : X → (d : D) → DAns d → List X}

variable (c : Conf (ServerOp.Ans DAns) Outcome Nat (ServerWorld X))

def NoLateWrite : Label (ServerOp.Ans DAns) Outcome Nat (ServerWorld X) → Prop
  | .call t ⟨.put s, .ok ()⟩ =>
    ∀ past, c.past t = some past → held past = none → c.world.store.Open s.id
  | _ => True

section Step

variable {c c' : Conf (ServerOp.Ans DAns) Outcome Nat (ServerWorld X)}
  {l : Label (ServerOp.Ans DAns) Outcome Nat (ServerWorld X)}

theorem store_step (h : Step (serverHost S services) c l c') : c'.world.store = c.world.store ∨
      ∃ t s past k, l = .call t ⟨.put s, .ok ()⟩ ∧ c.thread t = some ⟨.call (.put s) k, past⟩ ∧
        c'.world.store = c.world.store.insert s := by
  cases h with
  | start free may => exact .inl rfl
  | stop at_ret => exact .inl rfl
  | crash may live => exact .inl rfl
  | env may => exact may.elim
  | @call t e k past a w at_call out =>
    rcases store_of_outcome out with hs | ⟨s, hev, hs⟩
    · exact .inl hs
    · cases hev
      exact .inr ⟨t, s, past, k, rfl, at_call, hs⟩

theorem locked_put_open {t : Nat} {s : Session} {past : List (Event (ServerOp.Ans DAns))}
    {id : String} (hi : Informed c.world t past) (hheld : held past = some id)
    (hrule : sectionRule past (.put s : ServerOp D)) : c.world.store.Open s.id := by
  simp only [sectionRule, hheld] at hrule
  obtain ⟨s₀, hr, hs, ho⟩ := hrule
  rw [hs, hi.keyed id s₀ hr]
  exact hi.unfinished id s₀ hheld hr ho

/-- A step that meets the condition leaves every finished session in its phase. -/
theorem finished_phase_step (hf : c.Follows (fun _ => sectionRule) fun _ past _ => Free past)
    (hi : AllInformed c.world c.past) (h : Step (serverHost S services) c l c')
    (hG : NoLateWrite c l) {id : String} {p : SessionPhase} (hp : c.world.store.phase id = some p)
    (hterm : p.isTerminal = true) : c'.world.store.phase id = some p := by
  rcases store_step h with hs | ⟨t, s, past, k, rfl, hat, hs⟩
  · rwa [hs]
  · have hpast : c.past t = some past := by simp [Conf.past, hat]
    -- in either case the `Put` finds its session unfinished
    have hopen : c.world.store.Open s.id := by
      cases hheld : held past with
      | none => exact hG past hpast hheld
      | some id₀ => exact locked_put_open (hi t past hpast) hheld (hf _ _ hat).1
    have hne : s.id ≠ id := by
      rintro rfl
      simp [hopen p hp] at hterm
    rwa [hs, SessionStore.phase_insert, if_neg hne]

theorem late_write_reopens (hf : c.Follows (fun _ => sectionRule) fun _ past _ => Free past)
    (h : Step (serverHost S services) c l c') (hG : ¬ NoLateWrite c l) :
    ∃ id p, c.world.store.phase id = some p ∧ p.isTerminal = true ∧
      c'.world.store.phase id ≠ some p := by
  cases h with
  | start free may => exact absurd trivial hG
  | stop at_ret => exact absurd trivial hG
  | crash may live => exact absurd trivial hG
  | env may => exact absurd trivial hG
  | @call t e k past a w at_call out =>
    have hrule := (hf t _ at_call).1
    unfold NoLateWrite at hG
    split at hG
    next t' s hl =>
      cases hl
      have out : w ∈ serverOutcomes services t c.world (.put s) (.ok ()) := out
      obtain ⟨-, rfl⟩ := mem_outcomes_put_ok.mp out
      simp only [SessionStore.Open, not_forall, Bool.not_eq_false] at hG
      obtain ⟨past', hpast, hheld, p, hp, hterm⟩ := hG
      have he : past' = past := by simpa [Conf.past, at_call] using hpast.symm
      subst he
      have his : s.phase.isTerminal = false := by
        simp only [sectionRule, hheld] at hrule
        cases hrule with
        | fresh read is => exact is
        | renew id s₀ read same was is => simp [is, SessionPhase.isTerminal]
      refine ⟨s.id, p, hp, hterm, ?_⟩
      rw [Conf.world_put, SessionStore.phase_insert, if_pos rfl]
      rintro ⟨rfl⟩
      simp [his] at hterm
    · exact absurd trivial hG

end Step

/--
Once a session is stored as Committed or Aborted its phase never changes, in every run in which no
`Put` of `prepare` or `heartbeat` lands on a finished session; and a step that lets one land takes
that session out of its finished phase.
-/
theorem finished_phase_stable (S : Server DAns) (services : X → (d : D) → DAns d → List X)
    (st : SessionStore) (x : X) {tr₁ : List (Label (ServerOp.Ans DAns) Outcome Nat (ServerWorld X))}
    {c₁ : Conf (ServerOp.Ans DAns) Outcome Nat (ServerWorld X)}
    (h₁ : Run (serverHost S services) NoLateWrite (serverIdle st x) tr₁ c₁) :
    (∀ tr₂ c₂, Run (serverHost S services) NoLateWrite c₁ tr₂ c₂ →
      ∀ id p, c₁.world.store.phase id = some p → p.isTerminal = true →
        c₂.world.store.phase id = some p) ∧
    (∀ l c₂, Step (serverHost S services) c₁ l c₂ → ¬ NoLateWrite c₁ l →
      ∃ id p, c₁.world.store.phase id = some p ∧ p.isTerminal = true ∧
        c₂.world.store.phase id ≠ some p) := by
  constructor
  · intro tr₂ c₂ h₂ id p hp hterm
    induction h₂ with
    | nil => exact hp
    | snoc run meets step ih =>
      have hrun := h₁.append run
      exact finished_phase_step (server_run_follows hrun) (allInformed_run hrun) step meets ih hterm
  · intro l c₂ hstep hG
    exact late_write_reopens (server_run_follows h₁) hstep hG

/-! ## Two runs of a small server -/

def localServer : Server fun _ : Empty => Unit where
  store := true
  driver := some localDriver
  nodeName := "node-b"
  heartbeatTTL := 0
  formatDuration _ := "0s"

abbrev localHost := serverHost localServer fun _ : Unit => fun (_ : Empty) _ => [()]

def localCall (t : Nat) :
    Move (ServerOp.Ans fun _ : Empty => Unit) Outcome Nat (ServerWorld Unit) :=
  .call t (faultless (fun d => d.elim) 1) 0

def noLateWrite : Label (ServerOp.Ans DAns) Outcome Nat (ServerWorld X) → Bool
  | .call t ⟨.put s, .ok ()⟩ =>
    (c.past t).all fun past =>
      (held past).isSome || (c.world.store.phase s.id).all fun p => !p.isTerminal
  | _ => true

theorem noLateWrite_sound (c : Conf (ServerOp.Ans DAns) Outcome Nat (ServerWorld X))
    (l : Label (ServerOp.Ans DAns) Outcome Nat (ServerWorld X)) (h : noLateWrite c l = true) :
    NoLateWrite c l := by
  unfold NoLateWrite
  split
  next t s =>
    intro past hpast hheld p hp
    simpa [noLateWrite, hpast, hheld, hp] using h
  · trivial

def commitAlone : List (Move (ServerOp.Ans fun _ : Empty => Unit) Outcome Nat
    (ServerWorld Unit)) :=
  [.start 0 (localServer.commit "kmm-1"), localCall 0, localCall 0, localCall 0, localCall 0,
    localCall 0, .stop 0]

theorem finished_phase_stable_after_commit :
    ∃ tr₁ c₁, Run localHost NoLateWrite (serverIdle ⟨[sampleSession .prepared]⟩ ()) tr₁ c₁ ∧
      c₁.world.store.phase "kmm-1" = some .committed ∧
      ∀ tr₂ c₂, Run localHost NoLateWrite c₁ tr₂ c₂ →
        c₂.world.store.phase "kmm-1" = some .committed := by
  have may : localHost.Allows commitAlone := .commit _
  have run := play_sound noLateWrite_sound (c := serverIdle ⟨[sampleSession .prepared]⟩ ())
    may rfl
  exact ⟨_, _, run, rfl, fun tr₂ c₂ h₂ =>
    (finished_phase_stable localServer _ _ _ run).1 tr₂ c₂ h₂ "kmm-1" .committed rfl rfl⟩

def commitOvertakes : List (Move (ServerOp.Ans fun _ : Empty => Unit) Outcome Nat
    (ServerWorld Unit)) :=
  [.start 0 (localServer.heartbeat "kmm-1"), localCall 0,
    .start 1 (localServer.commit "kmm-1"), localCall 1, localCall 1, localCall 1, localCall 1]

def heartbeatGoesOn : List (Move (ServerOp.Ans fun _ : Empty => Unit) Outcome Nat
    (ServerWorld Unit)) :=
  [localCall 0, localCall 0]

/-- A heartbeat that read the session before a commit stores it again as Prepared. -/
theorem heartbeat_revives_committed : ∃ tr₁ c₁ tr₂ c₂,
      Run localHost (fun _ _ => True) (serverIdle ⟨[sampleSession .prepared]⟩ ()) tr₁ c₁ ∧
      c₁.world.store.phase "kmm-1" = some .committed ∧ Run localHost (fun _ _ => True) c₁ tr₂ c₂ ∧
      c₂.world.store.phase "kmm-1" = some .prepared := by
  have may : localHost.Allows commitOvertakes := ⟨.heartbeat _, .commit _⟩
  exact ⟨_, _, _, _, run_of_play may rfl, rfl, run_of_play (s := heartbeatGoesOn) trivial rfl, rfl⟩

/-- No two requests are in the section of one session, and nobody else finishes what the one inside
has read as unfinished. -/
theorem sections_exclusive (S : Server DAns) (services : X → (d : D) → DAns d → List X) (st x)
    {tr c t u past pastU id}
    (run : Run (serverHost S services) (fun _ _ => True) (serverIdle st x) tr c)
    (ht : c.past t = some past) (hu : c.past u = some pastU) (inside : Holds id past)
    (insideU : Holds id pastU) : t = u ∧
      ∀ s, lastRead id past = some (some s) → s.phase.isTerminal = false →
        c.world.store.Open id := by
  have hI := allInformed_run run
  have hlock := (hI t past ht).locked id inside
  have hlockU := (hI u pastU hu).locked id insideU
  exact ⟨Option.some.inj (hlock.symm.trans hlockU), fun s => (hI t past ht).unfinished id s inside⟩

theorem sections_exclusive_commit : ∃ tr c past,
    Run localHost (fun _ _ => True) (serverIdle ⟨[sampleSession .prepared]⟩ ()) tr c ∧
      c.past 0 = some past ∧ Holds "kmm-1" past ∧ c.world.store.Open "kmm-1" := by
  have may : localHost.Allows (commitAlone.take 3) := .commit _
  have run := run_of_play (c := serverIdle ⟨[sampleSession .prepared]⟩ ())
    may rfl
  exact ⟨_, _, _, run, rfl, rfl, (sections_exclusive (t := 0) (u := 0) _ _ _ _ run rfl rfl rfl
    rfl).2 (sampleSession .prepared) rfl rfl⟩

end Kairon.Migration
