/-
# What a body sees

A body reads one thing that all bodies of a worker share: the current activity.
A scope that waits lets any other deliveries and tasks happen before the body
around it goes on, and each body may end well, with an error or by a panic. All
the same, what a body performs itself is performed as its own activity.

* `Visits`: what one worker comes to. It makes moves and begins programs, and
  may take up a task whenever it likes; what other workers do may change all but
  its own bodies and its activity.
* `Sees`: what the actions of a body do with an activity. `Action.needsActivity`
  tells those that need one, and `Denied` what becomes of them without.
* `Visits.nested`: whatever is visited, the activities are nested as the bodies.
* `sees_own_activity`: each body sees its own activity, before and after whatever
  happens within it, and leaves the one there was.
-/
import Quiescence.Proofs.Activities
import Quiescence.Proofs.World.Lookup
import Quiescence.Network.Pairwise

namespace Quiescence

/-- Does the action need an activity? -/
def Action.needsActivity {α : Type} : Action α → Bool
  | .save _ | .info | .spawn _ | .spawnAt _ _ | .spawnShared _ _ _ | .scope _ _
  | .evaluate _ _ _ => true
  | .attempt a => a.needsActivity
  | _ => false

namespace Machine

variable {ν : Type → Type} {α : Type} {m m' k : Machine ν α}

/-- Is the frame no body? -/
def Frame.waits : Frame α → Bool
  | .body _ _ _ => false
  | _ => true

theorem activity?_append {waiting : List (Frame α)} (h : ∀ f ∈ waiting, f.waits = true)
    (stack : List (Frame α)) : activity? (waiting ++ stack) = activity? stack := by
  induction waiting with
  | nil => rfl
  | cons f waiting ih =>
    obtain ⟨hf, hwaiting⟩ := List.forall_mem_cons.mp h
    cases f with
    | body => cases hf
    | await => exact ih hwaiting
    | pump => exact ih hwaiting

/-- A moment of the worker: as it is, or with the next action of the body on top taken off it. -/
inductive Moment (m : Machine ν α) : Machine ν α → Prop where
  | now : Moment m m
  | acting {action : Action α} {rest : List (Action α)} {owner : Owner α}
      {previous : Option Activity} {below : List (Frame α)} :
      m.stack = .body (action :: rest) owner previous :: below →
      Moment m { m with stack := .body rest owner previous :: below }

theorem Moment.nested (hk : Moment m k) (h : Nested m) : Nested k := by
  cases hk with
  | now => exact h
  | acting hstack =>
    have hc := h.current
    have hr := h.restores
    rw [hstack] at hc hr
    exact ⟨hc, hr⟩

variable [Network ν]

/-- What one worker comes to from a machine. Other workers may change meanwhile all that is not its
own. -/
inductive Visits (m : Machine ν α) : Machine ν α → Prop where
  | refl : Visits m m
  | step {m' m'' : Machine ν α} : Visits m m' → m'.step = .to m'' → Visits m m''
  /-- A program begins, within whatever is going on. -/
  | start {m' : Machine ν α} (p : Program α) : Visits m m' → Visits m (p.start m')
  /-- Whatever is left is let happen. -/
  | settle {m' : Machine ν α} (left : Option ℕ) : Visits m m' → Visits m (m'.push (.pump left))
  | happen {m' m'' : Machine ν α} (ready : World.Ready) : Visits m m' →
      m'.happen ready = some m'' → Visits m m''
  | elsewhere {m' m'' : Machine ν α} : Visits m m' → m''.stack = m'.stack →
      m''.current = m'.current → Visits m m''

theorem Visits.nested (h : Visits m m') (hm : Nested m) : Nested m' := by
  induction h with
  | refl => exact hm
  | step _ hs ih => exact ih.step hs
  | start p _ ih => exact ih.start p
  | settle left _ ih => exact ih.pump left
  | happen ready _ hs ih => exact ih.happen hs
  | elsewhere _ hs hc ih => exact ih.congr hs hc

theorem Visits.runFor (h : Visits m m') (n : ℕ) : Visits m (m'.runFor n).1 := by
  induction n generalizing m' with
  | zero => exact h
  | succ n ih =>
    rw [Machine.runFor]
    split
    · exact ih (h.step ‹_›)
    · exact h
    · exact h

/-! ### Actions of an activity -/

/-- The body on top performs its actions as the activity: they name its place and the scope that
governs it. -/
structure Sees (m : Machine ν α) (a : Activity) : Prop where
  here : m.spot = a.place.text
  save : ∀ guarded name, m.perform guarded (.save name) = m.remember name a.scope
  info : ∀ guarded i, m.world.instance? a.scope = some i →
    m.perform guarded .info = m.note (.state a.place.text i (i.label a.scope))
  spawn : ∀ guarded body, m.perform guarded (.spawn body) =
    m.handOver guarded [a.scope] a.place a.place body
  spawnAt : ∀ guarded target body, m.perform guarded (.spawnAt target body) =
    m.handOver guarded [a.scope] a.place target body
  spawnShared : ∀ guarded target scopes body, m.perform guarded (.spawnShared target scopes body) =
    m.handOver guarded (a.scope :: m.scopesNamed scopes) a.place target body
  scope : ∀ guarded body, m.perform guarded (.scope none body) =
    m.openScope a.place (m.defaultKind a.place) body (.body guarded)
  scopeOf : ∀ guarded kind i body, m.world.instance? a.scope = some i →
    m.perform guarded (.scope (some kind) body) = m.openScope i.place kind body (.body guarded)
  evaluate : ∀ guarded target body answer, m.perform guarded (.evaluate target body answer) =
    m.openEvaluation guarded a.place target body answer

theorem sees_of_current {a : Activity} (h : m.current = some a) : Sees m a where
  here := by rw [spot, h]
  save _ _ := by rw [perform, withActivity, h]
  info _ i hi := by
    rw [perform, withActivity, h]
    simp only [hi, spot, h]
  spawn _ _ := by rw [perform, withActivity, h]
  spawnAt _ _ _ := by rw [perform, withActivity, h]
  spawnShared _ _ _ _ := by rw [perform, withActivity, h]
  scope _ _ := by rw [perform, withActivity, h]
  scopeOf _ _ _ _ hi := by
    rw [perform, withActivity, h]
    simp only [hi]
  evaluate _ _ _ _ := by rw [perform, withActivity, h]

/-- The action fails for want of an activity, and has registered nothing: no instance, no identity, no
message, no task, no name and no evaluation. -/
structure Denied (m m' : Machine ν α) : Prop where
  refused : ∃ guarded, m' = m.refuse guarded (.ofScope .noActivity)
  world : World.Alike m.world m'.world
  jobs : m'.world.jobs = m.world.jobs
  saved : m'.saved = m.saved
  evaluations : m'.evaluations = m.evaluations

/-- A body of no activity that ends with an error leaves no trace but statistics. -/
theorem denied_refuse (h : Nested m) (hc : m.current = none) (guarded : Bool) :
    Denied m (m.refuse guarded (.ofScope .noActivity)) := by
  suffices hm : ∀ m', m' = m.refuse guarded (.ofScope .noActivity) →
      World.Alike m.world m'.world ∧ m'.world.jobs = m.world.jobs ∧ m'.saved = m.saved ∧
        m'.evaluations = m.evaluations by
    obtain ⟨hworld, hjobs, hsaved, hevaluations⟩ := hm _ rfl
    exact ⟨⟨guarded, rfl⟩, hworld, hjobs, hsaved, hevaluations⟩
  rintro m' rfl
  unfold Machine.refuse
  split_ifs
  · exact ⟨.refl _, rfl, rfl, rfl⟩
  · unfold Machine.endBody
    split
    · rename_i rest owner previous below hstack
      have howner : owner.activity? = none := by
        rw [← hc, h.current, hstack]
        rfl
      cases owner with
      | scope s p resume => cases howner
      | bare => exact ⟨.refl _, rfl, rfl, rfl⟩
      | task job =>
        obtain ⟨p, finishes, code⟩ := job
        obtain rfl : finishes = [] := by simpa [Owner.activity?] using howner
        exact ⟨World.alike_modifySite m.world _ _ fun _ => rfl, rfl, rfl, rfl⟩
    · exact ⟨.refl _, rfl, rfl, rfl⟩

theorem denied_perform (h : Nested m) (hc : m.current = none) :
    ∀ (a : Action α) (guarded : Bool), a.needsActivity = true → Denied m (m.perform guarded a)
  | .attempt a, _, ha => by
    rw [perform]
    exact denied_perform h hc a true ha
  | .save _, guarded, _ | .info, guarded, _ | .spawn _, guarded, _ | .spawnAt _ _, guarded, _
  | .spawnShared _ _ _, guarded, _ | .scope none _, guarded, _ | .scope (some _) _, guarded, _
  | .evaluate _ _ _, guarded, _ => by
    rw [perform, withActivity, hc]
    exact denied_refuse h hc guarded

/-! ### The end of a body -/

theorem close_spec (m : Machine ν α) (owner : Owner α) (ending : Ending) :
    (m.close owner ending).current = m.current ∧ ∃ waiting : List (Frame α),
      (∀ f ∈ waiting, f.waits = true) ∧ (m.close owner ending).stack = waiting ++ m.stack := by
  cases owner with
  | scope s p resume =>
    exact ⟨rfl, [.await s resume], fun f hf => List.mem_singleton.mp hf ▸ rfl, rfl⟩
  | bare => exact ⟨rfl, [], List.forall_mem_nil _, rfl⟩
  | task job =>
    refine ⟨?_, [], List.forall_mem_nil _, ?_⟩ <;>
    · unfold close
      dsimp only
      split <;> rfl

/-- However a body ends, the activity is again that of the bodies it was begun within. -/
theorem endBody_spec {rest : List (Action α)} {owner : Owner α} {previous : Option Activity}
    {below : List (Frame α)} (h : Nested m) (hstack : m.stack = .body rest owner previous :: below)
    (ending : Ending) : (m.endBody ending).current = activity? below ∧
      ∃ waiting : List (Frame α), (∀ f ∈ waiting, f.waits = true) ∧
        (m.endBody ending).stack = waiting ++ below := by
  have hr := h.restores
  rw [hstack] at hr
  have hspec := close_spec { m with stack := below, current := previous } owner ending
  unfold Machine.endBody
  rw [hstack]
  exact ⟨hspec.1.trans hr.1, hspec.2⟩

/-! ### All of it -/

/-- **Each body sees its own activity.** Whatever one worker has come to, from nothing, its next action
is performed at a `Moment` of it. And at each moment, with an action in hand or not:

* the current activity is that of the innermost body;
* what this body performs is performed as its activity, the place it runs at and the scope that
  governs it, and if it has none, an action that needs one is denied;
* once the frames of the moment are on top again, or only waits are above them, the activity is the
  one of the moment, whatever has happened meanwhile;
* a body begun above them leaves them so, however it ends;
* outside all bodies there is no activity, and an action that needs one is denied. -/
theorem sees_own_activity {world : World ν (Code α)} {schedule : List ℕ}
    (h : Visits (idle world schedule) m) :
    (∀ action rest owner previous below, m.stack = .body (action :: rest) owner previous :: below →
      ∃ k, Moment m k ∧ k.stack = .body rest owner previous :: below ∧
        m.step = .to (k.perform false action)) ∧
    ∀ k, Moment m k →
      k.current = activity? k.stack ∧
      (∀ rest owner previous below, k.stack = .body rest owner previous :: below →
        (∀ a, owner.activity? = some a → Sees k a) ∧
        (owner.activity? = none → ∀ guarded action, action.needsActivity = true →
          Denied k (k.perform guarded action))) ∧
      (∀ m' waiting, Visits m m' → (∀ f ∈ waiting, Frame.waits f = true) →
        m'.stack = waiting ++ k.stack → m'.current = k.current) ∧
      (∀ m' rest owner previous, Visits m m' → m'.stack = .body rest owner previous :: k.stack →
        ∀ ending, (m'.endBody ending).current = k.current ∧ ∃ waiting : List (Frame α),
          (∀ f ∈ waiting, f.waits = true) ∧ (m'.endBody ending).stack = waiting ++ k.stack) ∧
      ((∀ f ∈ k.stack, f.waits = true) → k.current = none ∧
        ∀ guarded action, action.needsActivity = true → Denied k (k.perform guarded action)) := by
  have hm : Nested m := h.nested (.idle world schedule)
  refine ⟨fun action rest owner previous below hstack => ⟨_, .acting hstack, rfl, ?_⟩,
    fun k hk => ?_⟩
  · rw [Machine.step, hstack]
  have hn : Nested k := hk.nested hm
  refine ⟨hn.current, fun rest owner previous below hstack => ?_,
    fun m' waiting hv hw hstack => ?_, fun m' rest owner previous hv hstack ending => ?_,
    fun hw => ?_⟩
  · have hcurrent : k.current = owner.activity? := by
      rw [hn.current, hstack]
      rfl
    exact ⟨fun a ha => sees_of_current (hcurrent.trans ha), fun ho guarded action ha =>
      denied_perform hn (hcurrent.trans ho) action guarded ha⟩
  · rw [(hv.nested hm).current, hstack, activity?_append hw, hn.current]
  · rw [hn.current]
    exact endBody_spec (hv.nested hm) hstack ending
  · have hc : k.current = none := by
      have hempty := activity?_append hw []
      rw [List.append_nil] at hempty
      rw [hn.current, hempty]
      rfl
    exact ⟨hc, fun guarded action ha => denied_perform hn hc action guarded ha⟩

/-- Some places, and a worker that has nothing to do. -/
def resting (places : ℕ) : Machine Pairwise Unit := idle (.start (.empty places) places .plain 0) []

/-- A body at place 0 opens a scope of its own and goes on after the error of the task in it. -/
def recovers : Machine Pairwise Unit :=
  Program.start ⟨.inScope ⟨0⟩ none,
      [.attempt (.scope none [.spawn [.panic (.text "lost")]]), .save "mine"]⟩
    (resting 2)

/-- It sees the same scope before the task and after. Before it has begun, nothing could be spawned. -/
theorem sees_own_activity_recovers : (∃ k, Moment recovers k ∧ Sees k ⟨⟨0⟩, 0⟩ ∧
      (recovers.runFor 6).1.stack = k.stack ∧ (recovers.runFor 6).1.current = some ⟨⟨0⟩, 0⟩) ∧
    Denied (resting 2) ((resting 2).perform true (.spawn [])) := by
  have hv : Visits (resting 2) recovers := .start _ .refl
  have hk := Moment.acting (m := recovers) rfl
  obtain ⟨hcurrent, hsees, hback, -, -⟩ := (sees_own_activity hv).2 _ hk
  have hstack : (recovers.runFor 6).1.stack = _ := rfl
  refine ⟨⟨_, hk, (hsees _ _ _ _ rfl).1 _ rfl, hstack,
    (hback _ [] (Visits.runFor .refl 6) (List.forall_mem_nil _) hstack).trans hcurrent⟩, ?_⟩
  obtain ⟨-, -, -, -, houtside⟩ := (sees_own_activity (m := resting 2) .refl).2 _ .now
  exact (houtside (List.forall_mem_nil _)).2 true (.spawn []) rfl

end Machine

end Quiescence
