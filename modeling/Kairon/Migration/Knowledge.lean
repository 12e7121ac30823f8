import Kairon.Migration.Sections

/-!
# What the holder of a lock knows

Between taking and releasing the lock of a session, a handler can rely on what it read: whoever
stores a finished phase does it under that lock.
-/

namespace Kairon.Migration

open Infra Pasts

variable {D : Type} {DAns : D → Type} {X : Type} {S : Server DAns}
  {services : X → (d : D) → DAns d → List X} {s : Session} {id : String} {w w' : ServerWorld X}
  {t : Nat} {past : List (Event (ServerOp.Ans DAns))}

def SessionStore.Open (st : SessionStore) (id : String) : Prop :=
  ∀ p, st.phase id = some p → p.isTerminal = false

theorem SessionStore.open_insert {st : SessionStore}
    (h : st.Open id) (hs : s.phase.isTerminal = false) : (st.insert s).Open id := by
  intro p hp
  rw [phase_insert] at hp
  split at hp
  · cases hp
    exact hs
  · exact h p hp

structure Informed (w : ServerWorld X) (t : Nat) (past : List (Event (ServerOp.Ans DAns))) :
    Prop where
  /-- What was read under an id is the session of that id. -/
  keyed : ∀ id s, lastRead id past = some (some s) → s.id = id
  /-- The lock of the current section is held by the thread. -/
  locked : ∀ id, held past = some id → w.locks id = some t
  /-- A session read as unfinished under the lock is still unfinished. -/
  unfinished : ∀ id s, held past = some id → lastRead id past = some (some s) →
    s.phase.isTerminal = false → w.store.Open id

def AllInformed (w : ServerWorld X) (ps : Pasts (ServerOp.Ans DAns) Nat) : Prop :=
  ∀ t past, ps t = some past → Informed w t past

theorem informed_nil (w : ServerWorld X) (t : Nat) :
    Informed w t ([] : List (Event (ServerOp.Ans DAns))) := by
  constructor
  · intro id s h
    cases h
  · intro id h
    cases h
  · intro id s h
    cases h

theorem Informed.frame {past' : List (Event (ServerOp.Ans DAns))} (h : Informed w t past)
    (hstore : w'.store = w.store) (hlocks : w'.locks = w.locks) (hsame : SameSection past past') :
    Informed w' t past' where
  keyed id s hr := h.keyed id s (hsame.read id ▸ hr)
  locked id hh := by
    rw [hlocks]
    exact h.locked id (hsame.held ▸ hh)
  unfinished id s hh hr ho := by
    rw [hstore]
    exact h.unfinished id s (hsame.held ▸ hh) (hsame.read id ▸ hr) ho

theorem Informed.get (h : Informed w t past) (hfind : w.store.find id = some s) :
    Informed w t (⟨.get id, .ok s⟩ :: past) where
  keyed id' s' hr := by
    simp only [lastRead] at hr
    split at hr
    next he =>
      cases hr
      exact he ▸ SessionStore.id_of_find hfind
    · exact h.keyed id' s' hr
  locked id' hh := h.locked id' hh
  unfinished id' s' hh hr ho := by
    simp only [lastRead] at hr
    split at hr
    next he =>
      cases hr
      intro p hp
      rw [← he, SessionStore.phase, hfind] at hp
      cases hp
      exact ho
    · exact h.unfinished id' s' hh hr ho

theorem Informed.get_notFound (h : Informed w t past) :
    Informed w t (⟨.get id, .error .notFound⟩ :: past) where
  keyed id' s' hr := by
    obtain ⟨-, ⟨⟩⟩ | ⟨_, hr⟩ := ite_eq_iff.mp hr
    exact h.keyed id' s' hr
  locked id' hh := h.locked id' hh
  unfinished id' s' hh hr ho := by
    obtain ⟨-, ⟨⟩⟩ | ⟨_, hr⟩ := ite_eq_iff.mp hr
    exact h.unfinished id' s' hh hr ho

theorem Informed.put (h : Informed w t past) :
    Informed { w with store := w.store.insert s } t (⟨.put s, .ok ()⟩ :: past) where
  keyed id' s' hr := by
    obtain ⟨_, hr⟩ := Option.ite_none_left_eq_some.mp hr
    exact h.keyed id' s' hr
  locked id' hh := h.locked id' hh
  unfinished id' s' hh hr ho := by
    obtain ⟨hne, hr⟩ := Option.ite_none_left_eq_some.mp hr
    intro p hp
    rw [SessionStore.phase_insert, if_neg hne] at hp
    exact h.unfinished id' s' hh hr ho p hp

theorem Informed.quiet {ev : Event (ServerOp.Ans DAns)} (h : Informed w t past)
    (hsame : SameSection past (ev :: past)) : Informed w t (ev :: past) :=
  h.frame rfl rfl hsame

theorem Informed.step_own {e : ServerOp D} {a : ServerOp.Ans DAns e} (h : Informed w t past)
    (hout : w' ∈ serverOutcomes services t w e a) : Informed w' t (⟨e, a⟩ :: past) := by
  cases e with
  | get id =>
    rcases a with (_ | err) | s
    · obtain ⟨-, rfl⟩ := mem_outcomes_get_notFound.mp hout
      exact h.get_notFound
    · obtain rfl := mem_outcomes_get_other.mp hout
      exact h.quiet ⟨rfl, fun _ => rfl⟩
    · obtain ⟨hfind, rfl⟩ := mem_outcomes_get_ok.mp hout
      exact h.get hfind
  | put s =>
    rcases a with err | u
    · obtain rfl := mem_outcomes_put_error.mp hout
      exact h.quiet ⟨rfl, fun _ => rfl⟩
    · obtain ⟨-, rfl⟩ := mem_outcomes_put_ok.mp hout
      exact h.put
  | list =>
    rcases a with err | l
    · obtain rfl := mem_outcomes_list_error.mp hout
      exact h.quiet ⟨rfl, fun _ => rfl⟩
    · obtain ⟨-, rfl⟩ := mem_outcomes_list_ok.mp hout
      exact h.quiet ⟨rfl, fun _ => rfl⟩
  | now =>
    obtain rfl := mem_outcomes_now.mp hout
    exact h.quiet ⟨rfl, fun _ => rfl⟩
  | lock id =>
    obtain ⟨-, rfl⟩ := mem_outcomes_lock.mp hout
    refine ⟨fun _ _ hr => (by cases hr), fun id' hh => ?_, fun _ _ _ hr => (by cases hr)⟩
    cases hh
    exact Function.update_self ..
  | unlock id =>
    exact ⟨fun _ _ hr => (by cases hr), fun _ hh => (by cases hh), fun _ _ hh => (by cases hh)⟩
  | driver d =>
    obtain ⟨x, -, rfl⟩ := mem_outcomes_driver.mp hout
    exact h.frame rfl rfl ⟨rfl, fun _ => rfl⟩

/-- A `Put` that the discipline allows leaves another thread's locked session as it was read:
whoever stores a finished phase holds the lock. -/
theorem Informed.put_other {u : Nat} (hut : u ≠ t)
    {pastU : List (Event (ServerOp.Ans DAns))} (h : Informed w t past)
    (hU : Informed w u pastU) (hrule : sectionRule past (.put s : ServerOp D)) :
    Informed { w with store := w.store.insert s } u pastU where
  keyed := hU.keyed
  locked := hU.locked
  unfinished id s' hh hr ho := by
    have hopen := hU.unfinished id s' hh hr ho
    by_cases hid : s.id = id
    · simp only [sectionRule] at hrule
      split at hrule
      next id₀ hheld =>
        -- both threads would hold the lock of `id`
        obtain ⟨s₀, hr₀, hs₀, -⟩ := hrule
        have hkey : s₀.id = id₀ := h.keyed id₀ s₀ hr₀
        have hid₀ : id₀ = id := by rw [← hkey, ← hs₀, hid]
        subst hid₀
        have hboth : some u = some t := (hU.locked _ hh).symm.trans (h.locked _ hheld)
        cases hboth
        exact absurd rfl hut
      · refine SessionStore.open_insert hopen ?_
        cases hrule with
        | fresh read is => exact is
        | renew id' s₀ read same was is => simp [is, SessionPhase.isTerminal]
    · intro p hp
      rw [SessionStore.phase_insert, if_neg hid] at hp
      exact hopen p hp

theorem Informed.step_other {u : Nat} (hut : u ≠ t)
    {pastU : List (Event (ServerOp.Ans DAns))} {e : ServerOp D} {a : ServerOp.Ans DAns e}
    (h : Informed w t past) (hU : Informed w u pastU) (hrule : sectionRule past e)
    (hout : w' ∈ serverOutcomes services t w e a) : Informed w' u pastU := by
  cases e with
  | get id =>
    rcases a with (_ | err) | s
    · obtain ⟨-, rfl⟩ := mem_outcomes_get_notFound.mp hout
      exact hU
    · obtain rfl := mem_outcomes_get_other.mp hout
      exact hU
    · obtain ⟨-, rfl⟩ := mem_outcomes_get_ok.mp hout
      exact hU
  | put s =>
    rcases a with err | u
    · obtain rfl := mem_outcomes_put_error.mp hout
      exact hU
    · obtain ⟨-, rfl⟩ := mem_outcomes_put_ok.mp hout
      exact h.put_other hut hU hrule
  | list =>
    rcases a with err | l
    · obtain rfl := mem_outcomes_list_error.mp hout
      exact hU
    · obtain ⟨-, rfl⟩ := mem_outcomes_list_ok.mp hout
      exact hU
  | now =>
    obtain rfl := mem_outcomes_now.mp hout
    exact hU
  | lock id =>
    obtain ⟨hfree, rfl⟩ := mem_outcomes_lock.mp hout
    refine ⟨hU.keyed, fun id' hh => ?_, hU.unfinished⟩
    have hlock := hU.locked id' hh
    have hne : id' ≠ id := by
      rintro rfl
      simp [hfree] at hlock
    exact (Function.update_of_ne hne ..).trans hlock
  | unlock id =>
    obtain ⟨hown, rfl⟩ := mem_outcomes_unlock.mp hout
    refine ⟨hU.keyed, fun id' hh => ?_, hU.unfinished⟩
    have hlock := hU.locked id' hh
    have hne : id' ≠ id := by
      rintro rfl
      rw [hown] at hlock
      cases hlock
      exact hut rfl
    exact (Function.update_of_ne hne ..).trans hlock
  | driver d =>
    obtain ⟨x, -, rfl⟩ := mem_outcomes_driver.mp hout
    exact hU.frame rfl rfl ⟨rfl, fun _ => rfl⟩

theorem allInformed_inductive (G : Guard (ServerOp.Ans DAns) Outcome Nat (ServerWorld X)) :
    Inductive (serverHost S services) (fun _ => sectionRule) (fun _ past _ => Free past) G
      AllInformed where
  start := by
    intro w ps t h _
    refine forall_update ?_ fun u past _ hu => h u past hu
    rintro past ⟨⟩
    exact informed_nil w t
  call := by
    intro c t e a w past h hpast hrule _ hout
    refine forall_update ?_ fun u pastU hut hu => ?_
    · rintro past' ⟨⟩
      exact (h t past hpast).step_own hout
    · exact (h t past hpast).step_other hut (h u pastU hu) hrule hout
  stop := fun h _ _ => forall_update nofun fun u past _ hu => h u past hu
  crash := fun _ _ h => h.elim
  env := fun _ h => h.elim

variable {G : Guard (ServerOp.Ans DAns) Outcome Nat (ServerWorld X)} {st : SessionStore} {x : X}
  {c : Conf (ServerOp.Ans DAns) Outcome Nat (ServerWorld X)}
  {tr : List (Label (ServerOp.Ans DAns) Outcome Nat (ServerWorld X))}

theorem server_run_follows (h : Run (serverHost S services) G (serverIdle st x) tr c) :
    c.Follows (fun _ => sectionRule) fun _ past _ => Free past :=
  h.follows (fun _ _ hp => entry_follows hp) (Conf.follows_idle _ _ _)

theorem allInformed_run (h : Run (serverHost S services) G (serverIdle st x) tr c) :
    AllInformed c.world c.past :=
  (allInformed_inductive G).run (fun _ _ hp => entry_follows hp) h (Conf.follows_idle _ _ _)
    nofun

end Kairon.Migration
