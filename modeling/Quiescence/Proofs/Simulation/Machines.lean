/-
# Machines over another network

A machine asks its network for more than its world does: what can be delivered,
and its actions may kill places or change their number. A map that keeps these as
well (`Network.Carries`) takes every run to a run of the machine over the other
network (`runFor_recast`).

What a machine does but for picking what happens next depends neither on the
schedule nor on how much of it has been used, so these may be replaced (`recast`).
-/
import Quiescence.Program.Run
import Quiescence.Proofs.Activities
import Quiescence.Proofs.Simulation.Worlds

namespace Quiescence

variable {ν ν' : Type → Type}

/-- The same messages can be delivered as well, and the same places killed. -/
structure Network.Carries [Network ν] [Network ν'] {μ : Type} (h : ν μ → ν' μ) : Prop
    extends Network.Sends h where
  waiting : ∀ n, Network.waiting (h n) = Network.waiting n
  take : ∀ n lane, Network.take (h n) lane =
    (Network.take n lane).map fun out => (out.1, h out.2)
  kill : ∀ n p, Network.kill (h n) p = (Network.kill n p).map h
  resize : ∀ n k, Network.resize (h n) k = h (Network.resize n k)

theorem Network.Carries.refl (ν : Type → Type) [Network ν] {μ : Type} :
    Network.Carries (id : ν μ → ν μ) where
  known _ := rfl
  send n pk := by
    show Network.send n pk = _
    cases Network.send n pk <;> rfl
  waiting _ := rfl
  take n lane := by
    show Network.take n lane = _
    cases Network.take n lane <;> rfl
  kill n p := by
    show Network.kill n p = _
    cases Network.kill n p <;> rfl
  resize _ _ := rfl

namespace Machine

variable {α : Type}

/-- The same machine over another network, with another schedule of which so much has been used. -/
def recast (h : ν (Message (Code α)) → ν' (Message (Code α))) (schedule : List ℕ) (cursor : ℕ)
    (m : Machine ν α) : Machine ν' α :=
  { m with world := m.world.recast h, schedule, cursor }

def Move.recast (h : ν (Message (Code α)) → ν' (Message (Code α))) (schedule : List ℕ) (cursor : ℕ) :
    Move ν α → Move ν' α
  | .to m => .to (m.recast h schedule cursor)
  | .finished => .finished
  | .hung => .hung

section Parts

variable (h : ν (Message (Code α)) → ν' (Message (Code α))) (schedule : List ℕ) (cursor : ℕ)
  (m : Machine ν α)

@[simp] theorem world_recast : (m.recast h schedule cursor).world = m.world.recast h := rfl

theorem instances_recast : (m.recast h schedule cursor).world.instance? = m.world.instance? := rfl

@[simp] theorem stack_recast : (m.recast h schedule cursor).stack = m.stack := rfl

@[simp] theorem current_recast : (m.recast h schedule cursor).current = m.current := rfl

@[simp] theorem spot_recast : (m.recast h schedule cursor).spot = m.spot := rfl

@[simp] theorem note_recast (n : Note α) :
    (m.recast h schedule cursor).note n = (m.note n).recast h schedule cursor := rfl

@[simp] theorem push_recast (f : Frame α) :
    (m.recast h schedule cursor).push f = (m.push f).recast h schedule cursor := rfl

@[simp] theorem enter_recast (activity : Option Activity) (body : List (Action α)) (owner : Owner α) :
    (m.recast h schedule cursor).enter activity body owner =
      (m.enter activity body owner).recast h schedule cursor := rfl

@[simp] theorem scopesNamed_recast (names : List String) :
    (m.recast h schedule cursor).scopesNamed names = m.scopesNamed names := rfl

@[simp] theorem remember_recast (name : String) (s : Serial) :
    (m.recast h schedule cursor).remember name s = (m.remember name s).recast h schedule cursor := rfl

@[simp] theorem modifyEvaluation_recast (slot : ℕ) (f : Evaluation α → Evaluation α) :
    (m.recast h schedule cursor).modifyEvaluation slot f =
      (m.modifyEvaluation slot f).recast h schedule cursor := rfl

@[simp] theorem defaultKind_recast (p : PlaceId) :
    (m.recast h schedule cursor).defaultKind p = m.defaultKind p := rfl

end Parts

/-! ### What the next move is -/

section Next

variable {m : Machine ν α}

/-- The machine that lets the next thing happen, if its next move is that. -/
def waiting? (m : Machine ν α) : Option (Machine ν α) :=
  match m.stack with
  | .await s _ :: _ => if m.world.isReleasable s then none else some m
  | .pump (some 0) :: _ => none
  | .pump left :: rest => some { m with stack := .pump (left.map (· - 1)) :: rest }
  | _ => none

theorem waiting?_eq {m₁ : Machine ν α} (h : m.waiting? = some m₁) : ∃ stack, m₁ = { m with stack } := by
  unfold waiting? at h
  split at h
  · split_ifs at h
    cases h
    exact ⟨m.stack, rfl⟩
  · cases h
  · cases h
    exact ⟨_, rfl⟩
  · cases h

/-- The action that the next move performs, if it performs one. -/
def action? (m : Machine ν α) : Option (Action α) :=
  match m.stack with
  | .body (a :: _) _ _ :: _ => some a
  | _ => none

end Next

/-! ### The parts of a move -/

variable [Network ν] [Network ν'] {h : ν (Message (Code α)) → ν' (Message (Code α))}

section Sends

variable (hs : Network.Sends h) (schedule : List ℕ) (cursor : ℕ) (m : Machine ν α)

include hs

theorem tellBody_recast (s : Serial) (place : PlaceId) (ending : Ending) (resume : Resume) :
    (m.recast h schedule cursor).tellBody s place ending resume =
      (m.tellBody s place ending resume).recast h schedule cursor := by
  unfold Machine.tellBody
  rw [world_recast, World.endBody_recast hs]
  rfl

theorem close_recast (owner : Owner α) (ending : Ending) :
    (m.recast h schedule cursor).close owner ending = (m.close owner ending).recast h schedule cursor := by
  cases owner with
  | scope s place resume => exact tellBody_recast hs schedule cursor m s place ending resume
  | task job =>
    unfold Machine.close
    simp only [world_recast, World.complete_recast hs]
    cases ending with
    | well =>
      cases job.body.evaluates with
      | none => rfl
      | some slot => rfl
    | _ => rfl
  | bare => rfl

theorem endBody_recast (ending : Ending) :
    (m.recast h schedule cursor).endBody ending = (m.endBody ending).recast h schedule cursor := by
  unfold Machine.endBody
  rw [stack_recast]
  rcases hst : m.stack with _ | ⟨_ | _ | _, rest⟩
  · rfl
  · exact close_recast hs schedule cursor { m with stack := rest, current := _ } _ ending
  · rfl
  · rfl

theorem refuse_recast (guarded : Bool) (e : Raised) :
    (m.recast h schedule cursor).refuse guarded e = (m.refuse guarded e).recast h schedule cursor := by
  unfold Machine.refuse
  split_ifs
  · rfl
  · exact endBody_recast hs schedule cursor m _

theorem settle_recast (guarded : Bool) (result : Except ScopeError Unit) :
    (m.recast h schedule cursor).settle guarded result = (m.settle guarded result).recast h schedule cursor := by
  cases result with
  | ok _ => rfl
  | error e => exact refuse_recast hs schedule cursor m guarded _

theorem withActivity_recast (guarded : Bool) {act : Activity → Machine ν α}
    {act' : Activity → Machine ν' α} (ha : ∀ a, act' a = (act a).recast h schedule cursor) :
    (m.recast h schedule cursor).withActivity guarded act' =
      (m.withActivity guarded act).recast h schedule cursor := by
  unfold Machine.withActivity
  rw [current_recast]
  cases m.current with
  | none => exact refuse_recast hs schedule cursor m guarded _
  | some a => exact ha a

theorem handOver_recast (guarded : Bool) (finishes : List Serial) (place target : PlaceId)
    (body : List (Action α)) : (m.recast h schedule cursor).handOver guarded finishes place target body =
      (m.handOver guarded finishes place target body).recast h schedule cursor := by
  unfold Machine.handOver
  cases Task.register finishes place (⟨body, none⟩ : Code α) with
  | error e => exact refuse_recast hs schedule cursor m guarded _
  | ok t =>
    simp only [world_recast, World.spawnAt_recast hs]
    exact settle_recast hs schedule cursor { m with world := (m.world.spawnAt t place target).2 } guarded _

theorem openScope_recast (place : PlaceId) (kind : ScopeKind) (body : List (Action α)) (resume : Resume) :
    (m.recast h schedule cursor).openScope place kind body resume =
      (m.openScope place kind body resume).recast h schedule cursor := by
  unfold Machine.openScope
  simp only [world_recast, World.openScope_recast hs]
  rfl

theorem openEvaluation_recast (guarded : Bool) (place target : PlaceId) (body : List (Action α))
    (answer : Answer α) : (m.recast h schedule cursor).openEvaluation guarded place target body answer =
      (m.openEvaluation guarded place target body answer).recast h schedule cursor := by
  unfold Machine.openEvaluation
  simp only [world_recast, defaultKind_recast, World.openScope_recast hs, World.spawnAt_recast hs]
  exact tellBody_recast hs schedule cursor { m with
    world := _
    evaluations := m.evaluations ++ [⟨false, none⟩] } _ place _ _

/-- The action kills no place and changes no number of places but as the other network does. -/
def Carried (h : ν (Message (Code α)) → ν' (Message (Code α))) (w : World ν (Code α)) :
    Action α → Prop
  | .kill p => (w.recast h).kill p = (w.kill p).map (World.recast h)
  | .grow places => (w.recast h).resize places = (w.resize places).recast h
  | .attempt a => Carried h w a
  | _ => True

theorem perform_recast : ∀ (a : Action α) (guarded : Bool), Carried h m.world a →
    (m.recast h schedule cursor).perform guarded a = (m.perform guarded a).recast h schedule cursor
  | .log _, _, _ | .pump _, _, _ => rfl
  | .fail _, guarded, _ => refuse_recast hs schedule cursor m guarded _
  | .panic _, _, _ => endBody_recast hs schedule cursor m _
  | .save _, guarded, _ => withActivity_recast hs schedule cursor m guarded fun _ => rfl
  | .info, guarded, _ => withActivity_recast hs schedule cursor m guarded fun a => by
    simp only [world_recast, World.instance?_recast]
    cases m.world.instance? a.scope <;> rfl
  | .kill p, guarded, hc => by
    have hc : (m.world.recast h).kill p = (m.world.kill p).map (World.recast h) := hc
    unfold Machine.perform
    rw [world_recast, hc]
    cases m.world.kill p with
    | ok w => rfl
    | error e => exact refuse_recast hs schedule cursor m guarded _
  | .grow places, _, hc => by
    have hc : (m.world.recast h).resize places = (m.world.resize places).recast h := hc
    unfold Machine.perform
    rw [world_recast, hc]
    rfl
  | .spawn _, guarded, _ | .spawnAt _ _, guarded, _ | .spawnShared _ _ _, guarded, _ =>
    withActivity_recast hs schedule cursor m guarded fun _ => handOver_recast hs schedule cursor m guarded _ _ _ _
  | .spawnAmong _ scopes _, guarded, _ => by
    unfold Machine.perform
    simp only [scopesNamed_recast, instances_recast]
    cases (m.scopesNamed scopes).head?.bind m.world.instance? with
    | none => exact refuse_recast hs schedule cursor m guarded _
    | some i => exact handOver_recast hs schedule cursor m guarded _ _ _ _
  | .spawnUnder scopes _, guarded, _ => by
    unfold Machine.perform
    simp only [scopesNamed_recast, instances_recast]
    cases ((m.scopesNamed scopes).take 1).head?.bind m.world.instance? with
    | none => exact refuse_recast hs schedule cursor m guarded _
    | some i => exact handOver_recast hs schedule cursor m guarded _ _ _ _
  | .scope none _, guarded, _ => withActivity_recast hs schedule cursor m guarded fun _ =>
    openScope_recast hs schedule cursor m _ _ _ _
  | .scope (some _) _, guarded, _ => withActivity_recast hs schedule cursor m guarded fun a => by
    simp only [world_recast, World.instance?_recast]
    cases m.world.instance? a.scope with
    | none => rfl
    | some i => exact openScope_recast hs schedule cursor m _ _ _ _
  | .evaluate _ _ _, guarded, _ => withActivity_recast hs schedule cursor m guarded fun _ =>
    openEvaluation_recast hs schedule cursor m guarded _ _ _ _
  | .attempt a, _, hc => by
    rw [Machine.perform, Machine.perform]
    rw [Carried] at hc
    exact perform_recast a true hc

theorem startJob_recast (job : Job (Code α)) : (m.recast h schedule cursor).startJob job =
    (m.startJob job).recast h schedule cursor := by
  unfold Machine.startJob
  cases job.finishes with
  | nil =>
    simp only [world_recast, World.complete_recast hs]
    rfl
  | cons s fs =>
    dsimp only
    cases job.body.evaluates <;> rfl

theorem leave_recast (s : Serial) (resume : Resume) :
    (m.recast h schedule cursor).leave s resume = (m.leave s resume).recast h schedule cursor := by
  have hev : (m.recast h schedule cursor).evaluations = m.evaluations := rfl
  unfold Machine.leave
  simp only [world_recast, World.leave_recast, hev]
  generalize m.world.leave s = left
  cases resume with
  | body guarded => exact settle_recast hs schedule cursor { m with world := left.2 } guarded left.1
  | evaluation slot target guarded =>
    rcases left with ⟨e | _, w⟩
    · exact settle_recast hs schedule cursor { m with world := w } guarded (.error e)
    · dsimp only
      cases m.evaluations[slot]?.bind (·.value) with
      | some v => rfl
      | none => exact settle_recast hs schedule cursor { m with world := w } guarded (.error _)
  | outcome => rfl

theorem start_recast (p : Program α) :
    p.start (m.recast h schedule cursor) = (p.start m).recast h schedule cursor := by
  unfold Program.start
  cases p.setting with
  | outside => rfl
  | inScope place kind => exact openScope_recast hs schedule cursor m place _ _ _

/-! ### One move -/

omit hs in
theorem pump_recast {m₁ : Machine ν α} {rest : List (Frame α)} {cursor' : ℕ}
    (hnone : m₁.tick = none → cursor' = cursor)
    (hsome : (m₁.recast h schedule cursor).tick = m₁.tick.map (recast h schedule cursor')) :
    (match (m₁.recast h schedule cursor).tick with
      | some m => Move.to m
      | none => .to { m.recast h schedule cursor with stack := rest }) =
    Move.recast h schedule cursor' (match m₁.tick with
      | some m => .to m
      | none => .to { m with stack := rest }) := by
  rw [hsome]
  cases ht : m₁.tick with
  | none =>
    rw [hnone ht]
    rfl
  | some m₂ => rfl

/-- A move does the same over the other network, where what it lets happen and what it performs do. -/
theorem step_recast {cursor' : ℕ} (hc : ∀ a, m.action? = some a → Carried h m.world a)
    (hown : m.waiting? = none → cursor' = cursor)
    (ht : ∀ m₁, m.waiting? = some m₁ → (m₁.tick = none → cursor' = cursor) ∧
      (m₁.recast h schedule cursor).tick = m₁.tick.map (recast h schedule cursor')) :
    (m.recast h schedule cursor).step = m.step.recast h schedule cursor' := by
  unfold waiting? action? at *
  unfold Machine.step
  rw [stack_recast]
  rcases hst : m.stack with _ | ⟨⟨_ | ⟨a, as⟩, owner, previous⟩ | ⟨s, resume⟩ | ⟨_ | _ | k⟩, rest⟩ <;>
    simp only [hst] at hc hown ht ⊢
  · rfl
  · rw [hown trivial]
    exact congrArg Move.to (endBody_recast hs schedule cursor m .well)
  · rw [hown trivial]
    exact congrArg Move.to (perform_recast hs schedule cursor
      { m with stack := .body as owner previous :: rest } a false (hc a rfl))
  · rw [world_recast, World.isReleasable_recast]
    split_ifs at hown ht ⊢ with hz
    · rw [hown rfl]
      exact congrArg Move.to (leave_recast hs schedule cursor { m with stack := rest } s resume)
    · obtain ⟨hnone, hsome⟩ := ht m rfl
      rw [hsome]
      cases m.tick <;> rfl
  · obtain ⟨hnone, hsome⟩ := ht _ rfl
    exact pump_recast schedule cursor _ hnone hsome
  · rw [hown trivial]
    rfl
  · obtain ⟨hnone, hsome⟩ := ht _ rfl
    exact pump_recast schedule cursor _ hnone hsome

end Sends

/-! ### Runs over a network that carries the same -/

section Carries

variable (hs : Network.Carries h) (schedule : List ℕ) (cursor : ℕ) (m : Machine ν α)

include hs

omit schedule cursor in
theorem carried (w : World ν (Code α)) : ∀ a : Action α, Carried h w a
  | .kill p => by
    show (w.recast h).kill p = (w.kill p).map (World.recast h)
    unfold World.kill
    rw [World.net_recast, hs.kill]
    cases Network.kill w.net p <;> rfl
  | .grow places => by
    show (w.recast h).resize places = (w.resize places).recast h
    unfold World.resize
    rw [World.net_recast, hs.resize]
    rfl
  | .attempt a => by
    rw [Carried]
    exact carried w a
  | .log _ | .fail _ | .panic _ | .save _ | .info | .pump _ | .spawn _ | .spawnAt _ _
  | .spawnShared _ _ _ | .spawnAmong _ _ _ | .spawnUnder _ _ | .scope _ _ | .evaluate _ _ _ => trivial

theorem happen_recast (ready : World.Ready) : (m.recast h schedule cursor).happen ready =
    (m.happen ready).map (recast h schedule cursor) := by
  cases ready with
  | delivery lane =>
    simp only [Machine.happen, World.deliver, world_recast, World.net_recast, hs.take]
    cases Network.take m.world.net lane with
    | none => rfl
    | some out =>
      have hr := World.receive_recast hs.toSends { m.world with net := out.2 } out.1.dest out.1.content
      exact congrArg (fun w => some { m.recast h schedule cursor with world := w }) hr
  | job i =>
    simp only [Machine.happen, world_recast, World.takeJob_recast]
    cases m.world.takeJob i with
    | none => rfl
    | some out => exact congrArg some (startJob_recast hs.toSends schedule cursor { m with world := out.2 } out.1)

omit schedule cursor in
/-- Where the schedule and its use are kept, it picks the same. -/
theorem tick_recast : (m.recast h m.schedule m.cursor).tick =
    m.tick.map (recast h m.schedule (m.cursor + 1)) := by
  have hready : (m.recast h m.schedule m.cursor).world.ready = m.world.ready := by
    show (Network.waiting (h m.world.net)).map _ ++ _ = (Network.waiting m.world.net).map _ ++ _
    rw [hs.waiting]
    rfl
  have hchoice : (m.recast h m.schedule m.cursor).choice = m.choice := rfl
  unfold Machine.tick
  simp only [hready, hchoice]
  cases m.world.ready[m.choice m.world.ready.length]? with
  | none => rfl
  | some r => exact happen_recast hs m.schedule (m.cursor + 1) { m with cursor := m.cursor + 1 } r

end Carries

/-- How much of the schedule has been used after the next move. -/
def cursorAfter (m : Machine ν α) : ℕ :=
  match m.waiting?.bind tick with
  | some _ => m.cursor + 1
  | none => m.cursor

theorem step_recast_cursorAfter (hs : Network.Carries h) (m : Machine ν α) :
    (m.recast h m.schedule m.cursor).step = m.step.recast h m.schedule m.cursorAfter := by
  have hafter : ∀ m₁, m.waiting? = some m₁ → m.cursorAfter = match m₁.tick with
      | some _ => m.cursor + 1
      | none => m.cursor := fun m₁ hm₁ => by
    unfold cursorAfter
    rw [hm₁]
    rfl
  refine step_recast hs.toSends m.schedule m.cursor m (fun a _ => carried hs m.world a)
    (fun hnone => by unfold cursorAfter; rw [hnone]; rfl) fun m₁ hm₁ => ⟨fun htick => ?_, ?_⟩
  · rw [hafter m₁ hm₁, htick]
  · obtain ⟨stack, rfl⟩ := waiting?_eq hm₁
    have htick := tick_recast hs { m with stack }
    rw [hafter _ hm₁]
    cases h' : Machine.tick { m with stack } with
    | none => rw [htick, h']; rfl
    | some m₂ => rw [htick, h']

/-- The same machine over another network. -/
def onto (h : ν (Message (Code α)) → ν' (Message (Code α))) (m : Machine ν α) : Machine ν' α :=
  m.recast h m.schedule m.cursor

/-- The next move uses so much of the schedule, and leaves it as it is. -/
theorem schedule_step {m m' : Machine ν α} (hm : m.step = .to m') :
    m'.schedule = m.schedule ∧ m'.cursor = m.cursorAfter := by
  have hstep := step_recast_cursorAfter (Network.Carries.refl ν) m
  rw [show m.recast id m.schedule m.cursor = m from rfl, hm] at hstep
  have heq : m' = m'.recast id m.schedule m.cursorAfter := Move.to.inj hstep
  rw [heq]
  exact ⟨rfl, rfl⟩

/-- A run goes through the same machines over the other network. -/
theorem runFor_onto (hs : Network.Carries h) (n : ℕ) (m : Machine ν α) :
    (m.onto h).runFor n = ((m.runFor n).1.onto h, (m.runFor n).2) := by
  induction n generalizing m with
  | zero => rfl
  | succ n ih =>
    have hstep : (m.onto h).step = m.step.recast h m.schedule m.cursorAfter := step_recast_cursorAfter hs m
    simp only [runFor, hstep]
    rcases hm : m.step with m' | _ | _
    · obtain ⟨hschedule, hcursor⟩ := schedule_step hm
      show runFor n (m'.recast h m.schedule m.cursorAfter) = _
      rw [← hschedule, ← hcursor]
      exact ih m'
    · rfl
    · rfl

end Machine

end Quiescence
