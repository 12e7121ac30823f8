import Kairon.Adapter.FluxVM

/-!
# What an abort of the adapter reports

Both aborts answer 200 whatever FluxVM says, and the destination's forgets the receiver before it
asks. So success is reported although FluxVM refused, and a second abort of the session has nothing
left to address.

* `abort_past`: an abort looks its session up, asks FluxVM only for the id it has found, and
  answers 200
* `cleared_iff`: what FluxVM has of the id after the last call, by its answer and what it had before
* `abort_honest_iff`: an abort's report is right exactly if that answer was an acceptance, or FluxVM
  had nothing
-/

namespace Kairon.Adapter

open Infra Cluster

def AdapterCall.isAbort : AdapterCall → Bool
  | destAbort _ | sourceAbort _ _ => true
  | _ => false

/-- What an abort asks FluxVM for the id it has found. -/
def AdapterCall.undo : AdapterCall → String → FluxRequest
  | .sourceAbort _ _, id => .cancel id
  | _, id => .deleteReceiver id

/-- An abort's look into the map of the adapter, with the id found there. -/
def AdapterCall.looked (found : Option String) : AdapterCall → Event AdapterOp.Ans
  | .sourceAbort _ transferID => ⟨.getSource transferID, found⟩
  | call => ⟨.takeDest call.session, found⟩

theorem AdapterCall.abort_cases {call : AdapterCall} (h : call.isAbort = true) :
    (∃ id, call = .destAbort id) ∨
      ∃ sessionID transferID, call = .sourceAbort sessionID transferID := by
  cases call <;> simp_all [isAbort]

namespace World

/-- Whether FluxVM has a receiver or a migration that was made for the session of an abort. -/
def hasFor (w : World) : AdapterCall → Bool
  | .destAbort id => w.receivers.any fun r => r.1 = id
  | .sourceAbort _ transferID => w.migrations.any fun m => m.1 = transferID
  | _ => false

/-- The id that an abort would find now. -/
def idFor (w : World) : AdapterCall → Option String
  | .destAbort id => w.destByID.lookup id
  | .sourceAbort _ transferID => w.sourceRTID.lookup transferID
  | _ => none

/-- FluxVM has nothing of the id that an abort has found or, where it found none, of its session. -/
def Cleared (w : World) (call : AdapterCall) : Option String → Prop
  | some id => w.has (call.undo id) = false
  | none => w.hasFor call = false

/-- Before the last call of an abort that has found `found`: that call is the request for this id,
and FluxVM accepts it or has no such receiver or migration. Where no id was found there is nothing
of the session. -/
def Settles (w : World) (call : AdapterCall) (last : Event AdapterOp.Ans) : Option String → Prop
  | some id => ∃ response : Response, last = ⟨.flux (call.undo id), response⟩ ∧
      (response.fate = .accepted ∨ w.has (call.undo id) = false)
  | none => w.hasFor call = false

end World

section Aborts

variable {a : Settings} {D : Decoders} {w w' : World} {r : Request} {reply : Reply}
  {last : Event AdapterOp.Ans} {past : List (Event AdapterOp.Ans)} {found : Option String}
  {tr : List (Label AdapterOp.Ans Reply Request World)}
  {c c' : Conf AdapterOp.Ans Reply Request World}

/-- A finished abort has made one call or two. -/
theorem abort_past (habort : r.2.isAbort = true)
    (h : (r.2.code a D).Becomes past (.ret reply)) :
    reply = .done ∧ (past = [r.2.looked none] ∨ ∃ id, ∃ response : Response,
      past = [⟨.flux (r.2.undo id), response⟩, r.2.looked (some id)]) := by
  obtain ⟨n, call⟩ := r
  have hfollows : (call.code a D).Follows (fun _ _ => True) (fun past reply => reply = .done ∧
      (past = [call.looked none] ∨ ∃ id, ∃ response : Response,
        past = [⟨.flux (call.undo id), response⟩, call.looked (some id)])) [] := by
    obtain ⟨id, rfl⟩ | ⟨sessionID, transferID, rfl⟩ := AdapterCall.abort_cases habort <;>
      exact ⟨trivial, fun
        | none => ⟨rfl, .inl rfl⟩
        | some _ => ⟨trivial, fun _ => ⟨rfl, .inr ⟨_, _, rfl⟩⟩⟩⟩
  exact h.follows hfollows

/-- Looking a session up changes nothing of FluxVM. -/
theorem hasFor_looked (habort : r.2.isAbort = true)
    (hw : w' ∈ w.outcomes D r (r.2.looked none).op (r.2.looked none).ans) :
    w'.hasFor r.2 = w.hasFor r.2 := by
  obtain ⟨n, call⟩ := r
  obtain ⟨id, rfl⟩ | ⟨sessionID, transferID, rfl⟩ := AdapterCall.abort_cases habort
  all_goals
    simp only [AdapterCall.looked, World.outcomes, List.mem_ite_nil_right,
      List.mem_singleton] at hw
    simp only [hw.2, World.hasFor]

/-- What was asked for is gone after an acceptance, and otherwise FluxVM is as it was. -/
theorem has_undo_iff (habort : r.2.isAbort = true) {id : String} {response : Response}
    (hw : w' ∈ w.outcomes D r (.flux (r.2.undo id)) response) :
    w'.has (r.2.undo id) = false ↔ response.fate = .accepted ∨ w.has (r.2.undo id) = false := by
  cases hfate : response.fate with
  | accepted =>
    simp only [World.outcomes, hfate, List.mem_singleton] at hw
    obtain ⟨n, call⟩ := r
    obtain ⟨id, rfl⟩ | ⟨sessionID, transferID, rfl⟩ := AdapterCall.abort_cases habort <;>
      simp [hw, AdapterCall.undo, World.accept, World.has]
  | absent =>
    simp only [World.outcomes, hfate, List.mem_ite_nil_left, List.mem_singleton] at hw
    simp [hw.2]
  | refused =>
    simp only [World.outcomes, hfate, List.mem_singleton] at hw
    simp [hw]

theorem looked_mem_iff (past) (habort : r.2.isAbort = true) {found' : Option String} :
    r.2.looked found ∈ past ++ [r.2.looked found'] ↔
      r.2.looked found ∈ past ∨ found = found' := by
  obtain ⟨n, call⟩ := r
  obtain ⟨id, rfl⟩ | ⟨sessionID, transferID, rfl⟩ := AdapterCall.abort_cases habort <;>
    simp [AdapterCall.looked]

theorem cleared_iff (habort : r.2.isAbort = true) (hlook : r.2.looked found ∈ last :: past)
    (h : (r.2.code a D).Becomes (last :: past) (.ret reply))
    (hw : w' ∈ w.outcomes D r last.op last.ans) :
    w'.Cleared r.2 found ↔ w.Settles r.2 last found := by
  obtain ⟨-, hpast | ⟨id, response, hpast⟩⟩ := abort_past habort h
  · obtain ⟨rfl, rfl⟩ := List.cons_eq_cons.mp hpast
    obtain rfl : found = none := by simpa using (looked_mem_iff [] habort).mp hlook
    exact iff_of_eq (congrArg (· = false) (hasFor_looked habort hw))
  · obtain ⟨rfl, rfl⟩ := List.cons_eq_cons.mp hpast
    obtain hflux | rfl := (looked_mem_iff [_] habort).mp hlook
    · obtain ⟨n, call⟩ := r
      obtain ⟨id, rfl⟩ | ⟨sessionID, transferID, rfl⟩ := AdapterCall.abort_cases habort <;>
        simp [AdapterCall.looked] at hflux
    refine (has_undo_iff habort hw).trans ⟨fun hsettled => ⟨response, rfl, hsettled⟩, ?_⟩
    rintro ⟨response', heq, hsettled⟩
    cases heq
    exact hsettled

/-- An abort that has found `found`, at the call after which it replies. After a reported success
FluxVM has nothing left of it, and after a reported failure a repeated abort finds the same id. -/
theorem abort_honest_iff (hrun : AdapterRun a D w tr c) (habort : r.2.isAbort = true)
    (hstep : Step (host a D) c (.call r last) c')
    (hreply : c'.thread r = some ⟨.ret reply, last :: past⟩)
    (hlook : r.2.looked found ∈ last :: past) :
    ((reply.code = 200 → c'.world.Cleared r.2 found) ∧
        (reply.code ≠ 200 → c'.world.idFor r.2 = found)) ↔
      c.world.Settles r.2 last found := by
  obtain ⟨p, rfl, hbecomes⟩ := (Run.snoc hrun trivial hstep).becomes hreply
  have hdone : reply = .done := (abort_past habort hbecomes).1
  have hworld : c'.world ∈ c.world.outcomes D r last.op last.ans := by
    cases hstep with
    | call at_call out => exact out
  rw [← cleared_iff habort hlook hbecomes hworld, hdone]
  simp [Reply.code]

end Aborts

/-! ## A receiver that stays, and one that goes -/

def plainSettings : Settings := ⟨"10.0.0.7", "virbr0", 300, [], "", "", ""⟩

def abortedSession : Migration.Session :=
  ⟨"s-1", "default", "web", "node-a", "node-b", "vm-1", .prepared, "qemu", "", false, "", false, "",
    "", "/disks/web.qcow2", "52:54:00:00:00:01", 2, 2048, "", 0, 0⟩

def oneReceiver : Decoders := ⟨fun _ => .ok ⟨"r-1", 49152⟩, fun _ => .error ""⟩

def emptyWorld : World := ⟨[], [], [], []⟩

def serves (status : Nat) (w : World) : (e : AdapterOp) → e.Ans
  | .setDest _ _ | .setSource _ _ => ()
  | .getDest id | .takeDest id => w.destByID.lookup id
  | .getSource id => w.sourceRTID.lookup id
  | .flux _ => .answered status "receiver"

def step (r : Request) (status : Nat) : Move AdapterOp.Ans Reply Request World :=
  .call r (serves status) 0

def prepareRequest : Request := (0, .prepare (.ok abortedSession))

def abortRequest (n : Nat) : Request := (n, .destAbort "s-1")

def startRequest (r : Request) : Move AdapterOp.Ans Reply Request World :=
  .start r (r.2.code plainSettings oneReceiver)

def abortTwice : List (Move AdapterOp.Ans Reply Request World) :=
  [startRequest prepareRequest, step prepareRequest 201, step prepareRequest 201,
    .stop prepareRequest, startRequest (abortRequest 1), step (abortRequest 1) 500,
    step (abortRequest 1) 500, .stop (abortRequest 1), startRequest (abortRequest 2),
    step (abortRequest 2) 500, .stop (abortRequest 2)]

variable (tr : List (Label AdapterOp.Ans Reply Request World))

def abortReplies : List Reply :=
  tr.filterMap fun
    | .stop (_, .destAbort _) reply => some reply
    | _ => none

def deletes : List (String × Fate) :=
  tr.filterMap fun
    | .call _ ⟨.flux (.deleteReceiver id), response⟩ => some (id, Response.fate response)
    | _ => none

/-- Both aborts report success. FluxVM refused the one delete it was asked for and has the receiver
still, and the adapter has forgotten it. -/
theorem refused_delete_forgotten : ∃ tr c, AdapterRun plainSettings oneReceiver emptyWorld tr c ∧
      abortReplies tr = [.done, .done] ∧ deletes tr = [("r-1", .refused)] ∧
      c.world.receivers = [("s-1", "r-1")] ∧ c.world.destByID = [] := by
  exact Host.exists_free_run _ abortTwice ⟨rfl, rfl, rfl⟩
    (by decide +kernel)

def oneReceiverWorld : World := ⟨[("s-1", "r-1")], [], [("s-1", "r-1")], []⟩

theorem accepted_delete_reported : ∃ tr c c',
    AdapterRun plainSettings oneReceiver oneReceiverWorld tr c ∧
    Step (host plainSettings oneReceiver) c
      (.call (abortRequest 1) ⟨.flux (.deleteReceiver "r-1"), .answered 204 "receiver"⟩) c' ∧
    c'.world.Cleared (.destAbort "s-1") (some "r-1") := by
  have run : AdapterRun plainSettings oneReceiver oneReceiverWorld _ _ :=
    Host.run_of_play (s := [startRequest (abortRequest 1), step (abortRequest 1) 204]) rfl rfl
  refine ⟨_, _, _, run, Host.step_of_move (abortRequest 1) (serves 204) 0 rfl, ?_⟩
  have hhonest := abort_honest_iff run rfl
    (Host.step_of_move (abortRequest 1) (serves 204) 0 rfl) rfl (.tail _ (.head _))
  exact (hhonest.mpr ⟨_, rfl, .inl rfl⟩).1 rfl

end Kairon.Adapter
