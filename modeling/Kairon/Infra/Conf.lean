import Kairon.Infra.Prog

/-!
# Interleavings of programs over a shared world

A `Host` says what the world does with a call, which programs may be started and what may happen
from outside. A `Conf` is the world with the programs that are running, which take turns call by
call.
-/

namespace Infra

open List Function

variable {Op : Type} {Ans : Op → Type} {R Tid W : Type} {t : Tid} {ev : Event Ans}

/-- A running program: what is left of it, and the calls it has made, the newest first. -/
structure Thread {Op : Type} (Ans : Op → Type) (R : Type) where
  code : Prog Ans R
  past : List (Event Ans)

structure Host {Op : Type} (Ans : Op → Type) (R Tid W : Type) where
  /-- The worlds that the call `e` of thread `t` may lead to when it is answered by `a`. A call
  that cannot be answered so, or not yet, leads to none. -/
  outcomes : Tid → W → (e : Op) → Ans e → List W
  /-- The programs that thread `t` may be started with. -/
  start : Tid → Prog Ans R → Prop
  /-- What may happen to the world between calls. -/
  env : W → W → Prop
  /-- Whether a program may disappear in the middle. -/
  crash : Prop

structure Conf {Op : Type} (Ans : Op → Type) (R Tid W : Type) where
  world : W
  thread : Tid → Option (Thread Ans R)

inductive Label {Op : Type} (Ans : Op → Type) (R Tid W : Type) where
  | start (t : Tid) (p : Prog Ans R)
  | call (t : Tid) (ev : Event Ans)
  | stop (t : Tid) (r : R)
  | crash (t : Tid)
  | env (w : W)

variable (w : W)

namespace Conf

def past (c : Conf Ans R Tid W) (t : Tid) : Option (List (Event Ans)) :=
  (c.thread t).map Thread.past

def idle : Conf Ans R Tid W := ⟨w, fun _ => none⟩

@[simp] theorem world_idle : (idle w : Conf Ans R Tid W).world = w := rfl

variable [DecidableEq Tid]

def put (c : Conf Ans R Tid W) (w : W) (t : Tid) (th : Option (Thread Ans R)) : Conf Ans R Tid W :=
  ⟨w, Function.update c.thread t th⟩

@[simp] theorem world_put (c : Conf Ans R Tid W) (w : W) (t : Tid)
    (th : Option (Thread Ans R)) : (c.put w t th).world = w := rfl

theorem past_put (c : Conf Ans R Tid W) (w : W) (t : Tid) (th : Option (Thread Ans R)) :
    (c.put w t th).past = Function.update c.past t (th.map Thread.past) := by
  funext u
  by_cases hu : u = t
  · subst hu
    simp [past, put]
  · simp [past, put, hu]

end Conf

variable [DecidableEq Tid] {H : Host Ans R Tid W}

inductive Step (H : Host Ans R Tid W) (c : Conf Ans R Tid W) :
    Label Ans R Tid W → Conf Ans R Tid W → Prop
  | start {t : Tid} {p : Prog Ans R} (free : c.thread t = none) (may : H.start t p) :
      Step H c (.start t p) (c.put c.world t (some ⟨p, []⟩))
  | call {t : Tid} {e : Op} {k : Ans e → Prog Ans R} {past : List (Event Ans)} {a : Ans e} {w : W}
      (at_call : c.thread t = some ⟨.call e k, past⟩) (out : w ∈ H.outcomes t c.world e a) :
      Step H c (.call t ⟨e, a⟩) (c.put w t (some ⟨k a, ⟨e, a⟩ :: past⟩))
  | stop {t : Tid} {r : R} {past : List (Event Ans)} (at_ret : c.thread t = some ⟨.ret r, past⟩) :
      Step H c (.stop t r) (c.put c.world t none)
  | crash {t : Tid} {th : Thread Ans R} (may : H.crash) (live : c.thread t = some th) :
      Step H c (.crash t) (c.put c.world t none)
  | env {w : W} (may : H.env c.world w) : Step H c (.env w) ⟨w, c.thread⟩

abbrev Guard {Op : Type} (Ans : Op → Type) (R Tid W : Type) :=
  Conf Ans R Tid W → Label Ans R Tid W → Prop

/-- A run from `c` all of whose steps meet `G`, with what happened, the oldest first. -/
inductive Run (H : Host Ans R Tid W) (G : Guard Ans R Tid W) (c : Conf Ans R Tid W) :
    List (Label Ans R Tid W) → Conf Ans R Tid W → Prop
  | nil : Run H G c [] c
  | snoc {tr : List (Label Ans R Tid W)} {c₁ c₂ : Conf Ans R Tid W} {l : Label Ans R Tid W}
      (run : Run H G c tr c₁) (meets : G c₁ l) (step : Step H c₁ l c₂) : Run H G c (tr ++ [l]) c₂

variable {G G' : Guard Ans R Tid W} {c c' c₁ c₂ : Conf Ans R Tid W} {l : Label Ans R Tid W}
  {tr tr₁ tr₂ : List (Label Ans R Tid W)}

namespace Run

theorem append (h₁ : Run H G c tr₁ c₁) (h₂ : Run H G c₁ tr₂ c₂) : Run H G c (tr₁ ++ tr₂) c₂ := by
  induction h₂ with
  | nil => simpa using h₁
  | snoc _ meets step ih =>
    rw [← append_assoc]
    exact .snoc ih meets step

theorem split (h : Run H G c (tr₁ ++ l :: tr₂) c₂) :
    ∃ c' c'', Run H G c tr₁ c' ∧ G c' l ∧ Step H c' l c'' ∧ Run H G c'' tr₂ c₂ := by
  generalize htr : tr₁ ++ l :: tr₂ = tr at h
  induction h generalizing tr₂ with
  | nil => simp at htr
  | @snoc tr c₁ c₂ l' run meets step ih =>
    -- the last label is `l` itself, or it comes after `l`
    rcases eq_nil_or_concat tr₂ with rfl | ⟨tr₃, l₃, rfl⟩
    · obtain ⟨rfl, hl⟩ := append_inj' htr rfl
      cases hl
      exact ⟨c₁, c₂, run, meets, step, .nil⟩
    · rw [concat_eq_append, ← cons_append, ← append_assoc] at htr
      obtain ⟨hinit, hl⟩ := append_inj' htr rfl
      cases hl
      obtain ⟨c', c'', hpre, hG, hstep, hpost⟩ := ih hinit
      rw [concat_eq_append]
      exact ⟨c', c'', hpre, hG, hstep, .snoc hpost meets step⟩

theorem invariant {I : Conf Ans R Tid W → Prop} (h : Run H G c tr c₁) (h₀ : I c)
    (hs : ∀ {c l c'}, I c → G c l → Step H c l c' → I c') : I c₁ := by
  induction h with
  | nil => exact h₀
  | snoc _ meets step ih => exact hs ih meets step

theorem trace_invariant {I : List (Label Ans R Tid W) → Conf Ans R Tid W → Prop}
    (h : Run H G c tr c₁) (h₀ : I [] c)
    (hs : ∀ {tr c l c'}, I tr c → G c l → Step H c l c' → I (tr ++ [l]) c') : I tr c₁ := by
  induction h with
  | nil => exact h₀
  | snoc _ meets step ih => exact hs ih meets step

theorem strengthen {I : Conf Ans R Tid W → Prop} (h : Run H G c tr c₁) (h₀ : I c)
    (hs : ∀ {c l c'}, I c → G c l → Step H c l c' → I c')
    (hG : ∀ {c l}, I c → G c l → G' c l) : Run H G' c tr c₁ := by
  induction h with
  | nil => exact .nil
  | snoc run meets step ih => exact .snoc ih (hG (run.invariant h₀ hs) meets) step

theorem mono (h : Run H G c tr c₁) (hG : ∀ c l, G c l → G' c l) : Run H G' c tr c₁ :=
  h.strengthen (I := fun _ => True) trivial (fun _ _ _ => trivial) fun _ => hG _ _

end Run

theorem Step.outcome (h : Step H c (.call t ev) c') :
    c'.world ∈ H.outcomes t c.world ev.op ev.ans := by
  cases h with
  | call _ out => exact out

/-! ## What a program remembers -/

theorem Step.past_cases (h : Step H c l c') {past : List (Event Ans)} (hp : c'.past t = some past) :
    c.past t = some past ∨ (∃ p, l = .start t p ∧ past = []) ∨
      ∃ ev older, l = .call t ev ∧ c.past t = some older ∧ past = ev :: older := by
  -- a thread that did not move is as it was
  have frame : ∀ {u w} {new : Option (Thread Ans R)}, c' = c.put w u new → t ≠ u →
      c.past t = some past := by
    rintro u w new rfl hu
    rwa [Conf.past_put, update_of_ne hu] at hp
  have self : ∀ {w} {new : Option (Thread Ans R)}, c' = c.put w t new →
      new.map Thread.past = some past := by
    rintro w new rfl
    rwa [Conf.past_put, update_self] at hp
  cases h with
  | @start u p free may =>
    by_cases hu : t = u
    · subst hu
      exact .inr (.inl ⟨p, rfl, (Option.some.inj (self rfl)).symm⟩)
    · exact .inl (frame rfl hu)
  | @call u e k older a w at_call out =>
    by_cases hu : t = u
    · subst hu
      exact .inr (.inr ⟨_, older, rfl, by simp [Conf.past, at_call],
        (Option.some.inj (self rfl)).symm⟩)
    · exact .inl (frame rfl hu)
  | @stop u r older at_ret =>
    by_cases hu : t = u
    · subst hu
      cases self rfl
    · exact .inl (frame rfl hu)
  | @crash u th may live =>
    by_cases hu : t = u
    · subst hu
      cases self rfl
    · exact .inl (frame rfl hu)
  | env may => exact .inl hp

theorem Run.exists_call {w₀ : W} (h : Run H G (.idle w₀) tr c)
    {newer older : List (Event Ans)} (hp : c.past t = some (newer ++ ev :: older)) :
    ∃ tr₁ tr₂ c₁ c₂, tr = tr₁ ++ .call t ev :: tr₂ ∧ Run H G (.idle w₀) tr₁ c₁ ∧
      c₁.past t = some older ∧ Step H c₁ (.call t ev) c₂ ∧ Run H G c₂ tr₂ c := by
  induction h generalizing newer with
  | nil => cases hp
  | @snoc tr c c' l run meets step ih =>
    have before : ∀ newer', c.past t = some (newer' ++ ev :: older) →
        ∃ tr₁ tr₂ c₁ c₂, tr ++ [l] = tr₁ ++ .call t ev :: tr₂ ∧ Run H G (.idle w₀) tr₁ c₁ ∧
          c₁.past t = some older ∧ Step H c₁ (.call t ev) c₂ ∧ Run H G c₂ tr₂ c' := by
      intro newer' hp'
      obtain ⟨tr₁, tr₂, c₁, c₂, rfl, hrun₁, hpast, hstep, hrun₂⟩ := ih hp'
      exact ⟨tr₁, tr₂ ++ [l], c₁, c₂, by simp, hrun₁, hpast, hstep, .snoc hrun₂ meets step⟩
    rcases step.past_cases hp with hold | ⟨p, -, hnil⟩ | ⟨ev', past, rfl, hpast, hcons⟩
    · exact before newer hold
    · simp at hnil
    · -- the newest call is the one looked for, or that one is older
      cases newer with
      | nil =>
        obtain ⟨rfl, rfl⟩ := List.cons.inj hcons
        exact ⟨tr, [], c, c', rfl, run, hpast, step, .nil⟩
      | cons ev'' newer' =>
        obtain ⟨rfl, rfl⟩ := List.cons.inj hcons
        exact before newer' hpast

/-! ## Programs that keep to a discipline -/

/-- What holds of every program at its start and is kept by its calls holds of all running ones:
a step moves one of them at most. -/
theorem Step.threads {Q : Tid → Thread Ans R → Prop} (h : Step H c l c')
    (hc : ∀ t th, c.thread t = some th → Q t th) (hstart : ∀ t p, H.start t p → Q t ⟨p, []⟩)
    (hcall : ∀ t e k past a, Q t ⟨.call e k, past⟩ → Q t ⟨k a, ⟨e, a⟩ :: past⟩) :
    ∀ t th, c'.thread t = some th → Q t th := by
  have frame : ∀ {w t} {new : Option (Thread Ans R)}, (∀ th, new = some th → Q t th) →
      ∀ u th, (c.put w t new).thread u = some th → Q u th := by
    intro w t new hnew u th hu
    by_cases hut : u = t
    · subst hut
      exact hnew th (by simpa [Conf.put] using hu)
    · exact hc u th (by simpa [Conf.put, hut] using hu)
  cases h with
  | start free may =>
    refine frame fun th hth => ?_
    cases hth
    exact hstart _ _ may
  | call at_call out =>
    refine frame fun th hth => ?_
    cases hth
    exact hcall _ _ _ _ _ (hc _ _ at_call)
  | stop at_ret => exact frame nofun
  | crash may live => exact frame nofun
  | env may => exact hc

variable (ok : Tid → List (Event Ans) → Op → Prop) (post : Tid → List (Event Ans) → R → Prop)

def Conf.Follows (c : Conf Ans R Tid W) : Prop :=
  ∀ t th, c.thread t = some th → th.code.Follows (ok t) (post t) th.past

omit [DecidableEq Tid] in
theorem Conf.follows_idle (w : W) : (Conf.idle w : Conf Ans R Tid W).Follows ok post := by
  intro t th h
  cases h

section Discipline

variable {ok : Tid → List (Event Ans) → Op → Prop} {post : Tid → List (Event Ans) → R → Prop}
  (hok : ∀ t p, H.start t p → p.Follows (ok t) (post t) [])

include hok

theorem Step.follows (h : Step H c l c') (hc : c.Follows ok post) : c'.Follows ok post :=
  h.threads hc hok fun _ _ _ _ a hf => hf.2 a

theorem Run.follows (h : Run H G c tr c') (hc : c.Follows ok post) : c'.Follows ok post :=
  h.invariant hc fun hi _ hs => hs.follows hok hi

theorem Run.allowed (h : Run H G c tr c') (hc : c.Follows ok post) (hl : .call t ev ∈ tr) :
    ∃ tr₁ tr₂ c₁ past, tr = tr₁ ++ .call t ev :: tr₂ ∧ Run H G c tr₁ c₁ ∧
      c₁.past t = some past ∧ ok t past ev.op := by
  obtain ⟨tr₁, tr₂, rfl⟩ := append_of_mem hl
  obtain ⟨c₁, c₂, hrun, -, hstep, -⟩ := h.split
  have hf := hrun.follows hok hc
  cases hstep with
  | @call _ e k past a w at_call out =>
    exact ⟨tr₁, tr₂, c₁, past, rfl, hrun, by simp [Conf.past, at_call], (hf _ _ at_call).1⟩

theorem Run.returned (h : Run H G c tr c') (hc : c.Follows ok post) {r : R} (hl : .stop t r ∈ tr) :
    ∃ tr₁ tr₂ c₁ past, tr = tr₁ ++ .stop t r :: tr₂ ∧ Run H G c tr₁ c₁ ∧
      c₁.past t = some past ∧ post t past r := by
  obtain ⟨tr₁, tr₂, rfl⟩ := append_of_mem hl
  obtain ⟨c₁, c₂, hrun, -, hstep, -⟩ := h.split
  have hf := hrun.follows hok hc
  cases hstep with
  | @stop _ _ past at_ret =>
    exact ⟨tr₁, tr₂, c₁, past, rfl, hrun, by simp [Conf.past, at_ret], hf _ _ at_ret⟩

end Discipline

abbrev Pasts {Op : Type} (Ans : Op → Type) (Tid : Type) := Tid → Option (List (Event Ans))

theorem Pasts.forall_update {ps : Pasts Ans Tid} {new : Option (List (Event Ans))}
    {P : Tid → List (Event Ans) → Prop} (hnew : ∀ past, new = some past → P t past)
    (hold : ∀ u past, u ≠ t → ps u = some past → P u past) :
    ∀ u past, Function.update ps t new u = some past → P u past := by
  intro u past hu
  by_cases hut : u = t
  · subst hut
    rw [update_self] at hu
    exact hnew past hu
  · rw [update_of_ne hut] at hu
    exact hold u past hut hu

/--
What an invariant over the world and the calls of the live threads has to survive.

The programs are seen only through the discipline `ok` and `post` they keep to.
-/
structure Inductive (H : Host Ans R Tid W) (ok : Tid → List (Event Ans) → Op → Prop)
    (post : Tid → List (Event Ans) → R → Prop) (G : Guard Ans R Tid W)
    (I : W → Pasts Ans Tid → Prop) : Prop where
  start : ∀ {w ps t}, I w ps → ps t = none → I w (Function.update ps t (some []))
  call : ∀ {c : Conf Ans R Tid W} {t e a w past}, I c.world c.past → c.past t = some past →
    ok t past e → G c (.call t ⟨e, a⟩) → w ∈ H.outcomes t c.world e a →
    I w (Function.update c.past t (some (⟨e, a⟩ :: past)))
  stop : ∀ {w ps t past r}, I w ps → ps t = some past → post t past r →
    I w (Function.update ps t none)
  crash : ∀ {c : Conf Ans R Tid W} {t past}, I c.world c.past → c.past t = some past → H.crash →
    G c (.crash t) → I c.world (Function.update c.past t none)
  env : ∀ {c : Conf Ans R Tid W} {w}, I c.world c.past → H.env c.world w → G c (.env w) → I w c.past

namespace Inductive

variable {ok : Tid → List (Event Ans) → Op → Prop} {post : Tid → List (Event Ans) → R → Prop}
  {I : W → Pasts Ans Tid → Prop}

theorem step (hI : Inductive H ok post G I) (h : Step H c l c') (hG : G c l)
    (hf : c.Follows ok post) (hi : I c.world c.past) : I c'.world c'.past := by
  cases h with
  | start free may =>
    rw [Conf.past_put]
    exact hI.start hi (by simp [Conf.past, free])
  | call at_call out =>
    rw [Conf.past_put]
    exact hI.call hi (by simp [Conf.past, at_call]) (hf _ _ at_call).1 hG out
  | stop at_ret =>
    rw [Conf.past_put]
    exact hI.stop hi (by simp [Conf.past, at_ret]) (hf _ _ at_ret)
  | crash may live =>
    rw [Conf.past_put]
    exact hI.crash hi (by simp [Conf.past, live]; rfl) may hG
  | env may => exact hI.env (c := c) hi may hG

theorem run (hI : Inductive H ok post G I) (hok : ∀ t p, H.start t p → p.Follows (ok t) (post t) [])
    (h : Run H G c tr c') (hf : c.Follows ok post) (hi : I c.world c.past) :
    I c'.world c'.past := by
  have both : c'.Follows ok post ∧ I c'.world c'.past :=
    h.invariant (I := fun c => c.Follows ok post ∧ I c.world c.past) ⟨hf, hi⟩
      fun ⟨hf, hi⟩ hG hs => ⟨hs.follows hok hf, hI.step hs hG hf hi⟩
  exact both.2

end Inductive

/--
What an invariant over the world and the calls of the one thread `t₀` has to survive when no other
thread makes calls. The thread may be absent.
-/
structure Solo (H : Host Ans R Tid W) (t₀ : Tid) (ok : List (Event Ans) → Op → Prop)
    (post : List (Event Ans) → R → Prop) (G : Guard Ans R Tid W)
    (J : W → Option (List (Event Ans)) → Prop) : Prop where
  start : ∀ {w}, J w none → J w (some [])
  call : ∀ {c : Conf Ans R Tid W} {e a w past}, J c.world (some past) → c.past t₀ = some past →
    ok past e → G c (.call t₀ ⟨e, a⟩) → w ∈ H.outcomes t₀ c.world e a → J w (some (⟨e, a⟩ :: past))
  stop : ∀ {w past r}, J w (some past) → post past r → J w none
  crash : ∀ {c : Conf Ans R Tid W} {past}, J c.world (some past) → c.past t₀ = some past →
    G c (.crash t₀) → J c.world none
  env : ∀ {c : Conf Ans R Tid W} {w}, J c.world (c.past t₀) → H.env c.world w → G c (.env w) →
    J w (c.past t₀)

theorem Solo.inductive {t₀ : Tid} {ok : List (Event Ans) → Op → Prop}
    {post : Tid → List (Event Ans) → R → Prop}
    {J : W → Option (List (Event Ans)) → Prop} (hJ : Solo H t₀ ok (post t₀) G J) :
    Inductive H (fun t past e => t = t₀ ∧ ok past e) post G fun w ps => J w (ps t₀) where
  start := by
    intro w ps t h hfree
    by_cases ht : t = t₀
    · subst ht
      rw [update_self]
      exact hJ.start (hfree ▸ h)
    · rwa [update_of_ne (Ne.symm ht)]
  call := by
    rintro c t e a w past h hpast ⟨rfl, he⟩ hG hw
    rw [update_self]
    exact hJ.call (hpast ▸ h) hpast he hG hw
  stop := by
    intro w ps t past r h hpast hr
    by_cases ht : t = t₀
    · subst ht
      rw [update_self]
      exact hJ.stop (hpast ▸ h) hr
    · rwa [update_of_ne (Ne.symm ht)]
  crash := by
    intro c t past h hpast _ hG
    by_cases ht : t = t₀
    · subst ht
      rw [update_self]
      exact hJ.crash (hpast ▸ h) hpast hG
    · rwa [update_of_ne (Ne.symm ht)]
  env := fun h hw hG => hJ.env h hw hG

end Infra
