/-
# The parts of a move

A move of the machine takes one thing after another: an action is taken off a
body, a task is handed over, a body ends, a scope is left. Each of them is a
`Part`, which says as well what a history of the run has to tell of it: that a
remote evaluation was called, that a worker took up a task, that a body ended,
that a scope was left. What every part keeps, every move keeps.

The machine has one worker, whose moves these are. Any number of workers can
share its world: each has a stack of its own, and the moves of one leave the
stacks of the others as they are.

* `Allowed`: what programs must keep to.
* `Part`, `Parts`: one part, and several with all they tell.
* `goes_step`: each move is made of parts; so is what else a worker does
  (`goes_happen`).
* `Reached`: what some workers can come to that run programs.
* `Told`: runs that are made of parts, with their histories; each run of programs
  is one (`Reached.told`).
-/
import Quiescence.Proofs.Activities
import Quiescence.Proofs.Bodies

namespace Quiescence

open World (Built)

/-! ### What programs must keep to -/

namespace Machine

/-- The body of an owner, with the instances it is registered with. -/
def Owner.body? {α : Type} : Owner α → Option Body
  | .scope s p _ => some ⟨p, [s]⟩
  | .task job => some ⟨job.place, job.finishes⟩
  | .bare => none

def Frame.body? {α : Type} : Frame α → Option Body
  | .body _ owner _ => owner.body?
  | .await _ _ => none
  | .pump _ => none

/-- The bodies of a stack, innermost first. -/
def bodies {α : Type} (stack : List (Frame α)) : List Body := stack.filterMap Frame.body?

@[simp] theorem bodies_body {α : Type} (rest : List (Action α)) (owner : Owner α)
    (previous : Option Activity) (below : List (Frame α)) :
    bodies (.body rest owner previous :: below) = owner.body?.toList ++ bodies below := by
  unfold bodies
  rw [List.filterMap_cons, Frame.body?]
  cases owner.body? <;> rfl

@[simp] theorem bodies_await {α : Type} (s : Serial) (resume : Resume) (below : List (Frame α)) :
    bodies (.await s resume :: below) = bodies below := rfl

@[simp] theorem bodies_pump {α : Type} (left : Option ℕ) (below : List (Frame α)) :
    bodies (.pump left :: below) = bodies below := rfl

section Rules

variable {α : Type}

/-- The bodies of all workers: of the one that moves, and of the others. -/
def crew (m : Machine Pairwise α) (others : List (List (Frame α))) : List Body :=
  bodies m.stack ++ others.flatMap bodies

/-- The tasks that have not ended. -/
def untold (m : Machine Pairwise α) (others : List (List (Frame α))) : List Serial :=
  (m.crew others).flatMap (·.finishes) ++ m.world.jobs.flatMap (·.finishes)

/-- The instances hold tasks not ended, so a task of the place can be registered with them. One that is
for the place itself can be with those that are there. -/
def Registers (m : Machine Pairwise α) (others : List (List (Frame α))) (finishes : List Serial)
    (place target : PlaceId) : Prop :=
  ∀ s ∈ finishes, s ∈ m.untold others ∧ (target = place → m.world.placeOf? s = some place)

/-- The action registers its task, if it spawns one, with instances that it can be registered with.
The governing scope is always one. Places that were made and are out of reach stay so. -/
def Allows (m : Machine Pairwise α) (others : List (List (Frame α))) : Action α → Prop
  | .grow places =>
    ∀ p, m.world.Built p → m.world.net.Refuses p → (m.world.resize places).net.Refuses p
  | .spawnShared target scopes _ =>
    ∀ a, m.current = some a → m.Registers others (m.scopesNamed scopes) a.place target
  | .spawnAmong target scopes _ =>
    ∀ i, (m.scopesNamed scopes).head?.bind m.world.instance? = some i →
      m.Registers others (m.scopesNamed scopes) i.place target
  | .spawnUnder scopes _ =>
    ∀ i, ((m.scopesNamed scopes).take 1).head?.bind m.world.instance? = some i →
      m.Registers others ((m.scopesNamed scopes).take 1) i.place i.place
  | .attempt a => m.Allows others a
  | _ => True

/-- The next move performs no action but one that is allowed. -/
def Allowed (m : Machine Pairwise α) (others : List (List (Frame α))) : Prop :=
  match m.stack with
  | .body (a :: as) owner previous :: rest =>
    Allows { m with stack := .body as owner previous :: rest } others a
  | _ => True

end Rules

/-! ### What there is to tell -/

/-- A remote evaluation, as it was called. -/
structure Call (α : Type) where
  /-- The scope that was opened for it, where it was called. -/
  scope : Serial
  place : PlaceId
  target : PlaceId
  body : List (Action α)
  answer : Answer α
  /-- What came of handing the body over. -/
  result : Except ScopeError Unit

/-- The task that is evaluated for the call, which is the one at the position `slot`. -/
def Call.code {α : Type} (c : Call α) (slot : ℕ) : Code α := ⟨c.body, some (slot, c.answer)⟩

/-- What becomes of bodies and scopes. -/
inductive Deed (α : Type) where
  | called (call : Call α)
  /-- A worker takes up a task, to run its body. -/
  | took (job : Job (Code α))
  | ended (owner : Owner α) (ending : Ending)
  | left (scope : Serial)

namespace Deed

variable {α : Type}

def call? : Deed α → Option (Call α)
  | .called c => some c
  | _ => none

def taken? : Deed α → Option (Job (Code α))
  | .took job => some job
  | _ => none

def ended? : Deed α → Option Ended
  | .ended owner ending => owner.body?.map fun b => ⟨b, ending⟩
  | _ => none

/-- The task whose body has ended. -/
def done? : Deed α → Option (Job (Code α) × Ending)
  | .ended (.task job) ending => some (job, ending)
  | _ => none

def left? : Deed α → Option Serial
  | .left s => some s
  | _ => none

end Deed

section Parts

variable {α : Type}

/-- The body on top runs as the activity. -/
def Active (m : Machine Pairwise α) (a : Activity) : Prop :=
  ∃ rest owner previous below, m.stack = .body rest owner previous :: below ∧ owner.activity? = some a

/-- The worker with that stack moves now. -/
def turnTo (m : Machine Pairwise α) (stack : List (Frame α)) : Machine Pairwise α :=
  { m with stack, current := activity? stack }

/-- The call that `openEvaluation` makes. -/
def callAt (m : Machine Pairwise α) (place target : PlaceId) (body : List (Action α)) (answer : Answer α) :
    Call α where
  scope := m.world.instances.length
  place
  target
  body
  answer
  result := ((m.world.openScope place (m.defaultKind place)).2.spawnAt
    ⟨[m.world.instances.length], place, ⟨body, some (m.evaluations.length, answer)⟩⟩ place target).1

/-- What there is to tell of that call: the body of its scope hands the task over and ends. -/
def deedsAt (m : Machine Pairwise α) (guarded : Bool) (place target : PlaceId) (body : List (Action α))
    (answer : Answer α) : List (Deed α) :=
  [.called (m.callAt place target body answer),
    .ended (.scope m.world.instances.length place (.evaluation m.evaluations.length target guarded))
      (.ofResult (m.callAt place target body answer).result)]

/-- A part of a move, with what there is to tell of it. The stacks of other workers stay as they are. -/
inductive Part (others : List (List (Frame α))) : Machine Pairwise α → List (Deed α) → Machine Pairwise α → Prop where
  /-- The log, the remembered scopes, the schedule, the outcome. -/
  | aside (m m') : m'.world = m.world → m'.stack = m.stack → m'.evaluations = m.evaluations →
      Part others m [] m'
  /-- An action is taken off the body on top. -/
  | shorten (m a as owner previous below) : m.stack = .body (a :: as) owner previous :: below →
      Part others m [] { m with stack := .body as owner previous :: below }
  | pump (m left) : Part others m [] (m.push (.pump left))
  | pumped (m left below) : m.stack = .pump left :: below → Part others m [] { m with stack := below }
  | kill (m p w) : m.world.kill p = .ok w → Part others m [] { m with world := w }
  /-- The number of places changes. -/
  | resize (m places) :
      (∀ p, m.world.Built p → m.world.net.Refuses p → (m.world.resize places).net.Refuses p) →
      Part others m [] { m with world := m.world.resize places }
  /-- A task is spawned that is evaluated for no value. -/
  | spawn (m finishes place target body) :
      (∀ s ∈ finishes, m.Active ⟨place, s⟩ ∨ m.Registers others [s] place target) →
      Part others m [] { m with
        world := (m.world.spawnAt ⟨finishes, place, ⟨body, none⟩⟩ place target).2 }
  /-- The body on top ends. -/
  | finish (m rest owner previous below ending) : m.stack = .body rest owner previous :: below →
      Part others m [.ended owner ending] (m.endBody ending)
  /-- The body on top opens a scope, there or at the place of the scope that governs it. -/
  | openScope (m a place kind body guarded) : m.Active a →
      (place = a.place ∨ m.world.placeOf? a.scope = some place) →
      Part others m [] (m.openScope place kind body (.body guarded))
  /-- The body on top calls for an evaluation: a scope is opened, whose body hands the task over and
  ends. -/
  | evaluate (m a guarded target body answer) : m.Active a →
      Part others m (m.deedsAt guarded a.place target body answer)
        (m.openEvaluation guarded a.place target body answer)
  /-- A program begins. -/
  | start (m) (p : Program α) :
      (∀ place kind, p.setting = .inScope place kind → m.world.Built place) → Part others m [] (p.start m)
  | deliver (m lane w) : m.world.deliver lane = some w → Part others m [] { m with world := w }
  /-- A worker takes up a task and begins its body. -/
  | begin (m k job w) : m.world.takeJob k = some (job, w) → job.finishes ≠ [] →
      Part others m [.took job] ({ m with world := w }.startJob job)
  /-- A task that no scope governs ends without its body. -/
  | idle (m k job w) : m.world.takeJob k = some (job, w) → job.finishes = [] →
      Part others m [.took job, .ended (.task job) .well] ({ m with world := w }.startJob job)
  /-- A scope that is released is left. -/
  | leave (m s resume below) : m.stack = .await s resume :: below → m.world.isReleasable s = true →
      Part others m [.left s] { m with world := (m.world.leave s).2, stack := below }

/-- Any number of parts, and all there is to tell of them. -/
inductive Parts (others : List (List (Frame α))) (m : Machine Pairwise α) :
    List (Deed α) → Machine Pairwise α → Prop where
  | refl : Parts others m [] m
  | tail {m' m'' ds ds'} : Parts others m ds m' → Part others m' ds' m'' →
      Parts others m (ds ++ ds') m''

theorem Parts.trans {others : List (List (Frame α))} {m m' m'' : Machine Pairwise α} {ds ds' : List (Deed α)}
    (h : Parts others m ds m') (h' : Parts others m' ds' m'') : Parts others m (ds ++ ds') m'' := by
  induction h' with
  | refl => rwa [List.append_nil]
  | tail _ hp ih =>
    rw [← List.append_assoc]
    exact .tail ih hp

end Parts

/-! ### Moves are made of parts -/

section Made

variable {α : Type} {m m' m'' : Machine Pairwise α} {others : List (List (Frame α))}

/-- The activity of the body on top is the current one. -/
theorem Nested.active (h : Nested m) {rest : List (Action α)} {owner : Owner α}
    {previous : Option Activity} {below : List (Frame α)}
    (hstack : m.stack = .body rest owner previous :: below) {a : Activity} (ha : m.current = some a) :
    m.Active a := by
  refine ⟨rest, owner, previous, below, hstack, ?_⟩
  rw [← ha, h.current, hstack]
  rfl

theorem Registers.each {finishes : List Serial} {place target : PlaceId}
    (h : m.Registers others finishes place target) {s : Serial} (hs : s ∈ finishes) :
    m.Registers others [s] place target := fun t ht => by
  rw [List.mem_singleton.mp ht]
  exact h s hs

/-- Some parts lead from one machine to another. -/
def Goes (others : List (List (Frame α))) (m m' : Machine Pairwise α) : Prop := ∃ ds, Parts others m ds m'

theorem Part.goes {ds : List (Deed α)} (h : Part others m ds m') : Goes others m m' :=
  ⟨[] ++ ds, .tail .refl h⟩

namespace Goes

theorem refl (m : Machine Pairwise α) : Goes others m m := ⟨[], .refl⟩

theorem trans (h : Goes others m m') (h' : Goes others m' m'') : Goes others m m'' := by
  obtain ⟨ds, hd⟩ := h
  obtain ⟨ds', hd'⟩ := h'
  exact ⟨ds ++ ds', hd.trans hd'⟩

theorem aside (hw : m'.world = m.world) (hs : m'.stack = m.stack)
    (he : m'.evaluations = m.evaluations) : Goes others m m' := (Part.aside m m' hw hs he).goes

end Goes

theorem goes_endBody (m : Machine Pairwise α) (ending : Ending) : Goes others m (m.endBody ending) := by
  cases hstack : m.stack with
  | nil =>
    unfold Machine.endBody
    rw [hstack]
    exact .refl m
  | cons f below =>
    cases f with
    | body rest owner previous => exact (Part.finish m rest owner previous below ending hstack).goes
    | _ =>
      unfold Machine.endBody
      rw [hstack]
      exact .refl m

theorem goes_refuse (m : Machine Pairwise α) (guarded : Bool) (e : Raised) :
    Goes others m (m.refuse guarded e) := by
  unfold Machine.refuse
  split_ifs
  · exact .aside rfl rfl rfl
  · exact goes_endBody m _

theorem goes_settle (m : Machine Pairwise α) (guarded : Bool) (result : Except ScopeError Unit) :
    Goes others m (m.settle guarded result) := by
  cases result with
  | ok _ => exact .refl m
  | error e => exact goes_refuse m guarded _

theorem goes_handOver (guarded : Bool) {finishes : List Serial} {place target : PlaceId}
    (hr : ∀ s ∈ finishes, m.Active ⟨place, s⟩ ∨ m.Registers others [s] place target)
    (body : List (Action α)) : Goes others m (m.handOver guarded finishes place target body) := by
  unfold Machine.handOver Task.register
  split_ifs
  · exact goes_refuse m guarded _
  · exact (Part.spawn m finishes place target body hr).goes.trans (goes_settle _ guarded _)

section Actions

variable {rest : List (Action α)} {owner : Owner α} {previous : Option Activity}
  {below : List (Frame α)}

theorem goes_withActivity (h : Nested m) (hstack : m.stack = .body rest owner previous :: below)
    (guarded : Bool) {act : Activity → Machine Pairwise α}
    (ha : ∀ a, m.current = some a → m.Active a → Goes others m (act a)) :
    Goes others m (m.withActivity guarded act) := by
  unfold Machine.withActivity
  split
  · exact ha _ ‹_› (h.active hstack ‹_›)
  · exact goes_refuse m guarded _

/-- What an action does, its spawned tasks registered as they may be. -/
theorem goes_perform (h : Nested m) (hstack : m.stack = .body rest owner previous :: below) :
    ∀ (a : Action α) (guarded : Bool), m.Allows others a → Goes others m (m.perform guarded a)
  | .log _, _, _ => .aside rfl rfl rfl
  | .fail _, guarded, _ => goes_refuse m guarded _
  | .panic _, _, _ => goes_endBody m _
  | .save _, guarded, _ => goes_withActivity h hstack guarded fun _ _ _ => .aside rfl rfl rfl
  | .info, guarded, _ => goes_withActivity h hstack guarded fun a _ _ => by
    split
    · exact .aside rfl rfl rfl
    · exact .refl m
  | .kill p, guarded, _ => by
    unfold Machine.perform
    split
    · rename_i w hw
      exact (Part.kill m p w hw).goes
    · exact goes_refuse m guarded _
  | .grow places, _, ha => (Part.resize m places ha).goes
  | .pump _, _, _ => (Part.pump m _).goes
  | .spawn _, guarded, _ | .spawnAt _ _, guarded, _ =>
    goes_withActivity h hstack guarded fun a _ hact => goes_handOver guarded (fun s hs => by
      rw [List.mem_singleton.mp hs]
      exact .inl hact) _
  | .spawnShared _ _ _, guarded, ha => goes_withActivity h hstack guarded fun a hc hact =>
    goes_handOver guarded (fun s hs => by
      rcases List.mem_cons.mp hs with rfl | hs
      · exact .inl hact
      · exact .inr ((show m.Registers _ _ _ _ from ha a hc).each hs)) _
  | .spawnAmong _ _ _, guarded, ha | .spawnUnder _ _, guarded, ha => by
    unfold Machine.perform
    dsimp only
    split
    · rename_i i hi
      exact goes_handOver guarded (fun s hs => .inr ((show m.Registers _ _ _ _ from ha i hi).each hs)) _
    · exact goes_refuse m guarded _
  | .scope none _, guarded, _ => goes_withActivity h hstack guarded fun a _ hact =>
    (Part.openScope m a a.place _ _ guarded hact (.inl rfl)).goes
  | .scope (some _) _, guarded, _ => goes_withActivity h hstack guarded fun a _ hact => by
    split
    · rename_i i hi
      exact (Part.openScope m a i.place _ _ guarded hact (.inr (World.placeOf?_eq hi))).goes
    · exact .refl m
  | .evaluate target body answer, guarded, _ => goes_withActivity h hstack guarded fun a _ hact =>
    (Part.evaluate m a guarded target body answer hact).goes
  | .attempt a, _, ha => by
    rw [Machine.perform]
    rw [Allows] at ha
    exact goes_perform h hstack a true ha

end Actions

theorem goes_happen {ready : World.Ready} (hm : m.happen ready = some m') : Goes others m m' := by
  cases ready with
  | delivery lane =>
    obtain ⟨w, hw, rfl⟩ := Option.map_eq_some_iff.mp hm
    exact (Part.deliver m lane w hw).goes
  | job k =>
    obtain ⟨⟨job, w⟩, hw, rfl⟩ := Option.map_eq_some_iff.mp hm
    by_cases hf : job.finishes = []
    · exact (Part.idle m k job w hw hf).goes
    · exact (Part.begin m k job w hw hf).goes

theorem goes_tick (hm : m.tick = some m') : Goes others m m' := by
  unfold Machine.tick at hm
  dsimp only at hm
  split at hm
  · exact (Part.aside m { m with cursor := m.cursor + 1 } rfl rfl rfl).goes.trans (goes_happen hm)
  · cases hm

/-- The scope is left, and what waited for it goes on. -/
theorem goes_leave {s : Serial} {resume : Resume} {below : List (Frame α)}
    (hstack : m.stack = .await s resume :: below) (hz : m.world.isReleasable s = true) :
    Goes others m ({ m with stack := below }.leave s resume) := by
  refine (Part.leave m s resume below hstack hz).goes.trans ?_
  unfold Machine.leave
  cases resume with
  | body guarded => exact goes_settle _ guarded _
  | evaluation slot target guarded =>
    dsimp only
    split
    · exact goes_settle _ guarded _
    · exact .aside rfl rfl rfl
    · exact goes_settle _ guarded _
  | outcome => exact .aside rfl rfl rfl

/-- Every move is made of parts. -/
theorem goes_step (h : Nested m) (ha : m.Allowed others) (hm : m.step = .to m') : Goes others m m' := by
  unfold Machine.step at hm
  unfold Allowed at ha
  split at hm
  · cases hm
  · cases hm
    exact goes_endBody m _
  · rename_i a as owner previous rest hstack
    rw [hstack] at ha
    cases hm
    have hn : Nested { m with stack := .body as owner previous :: rest } := by
      have hc := h.current
      have hr := h.restores
      rw [hstack] at hc hr
      exact ⟨hc, hr⟩
    exact (Part.shorten m a as owner previous rest hstack).goes.trans
      (goes_perform hn rfl a false ha)
  · rename_i s resume rest hstack
    split_ifs at hm with hz
    · cases hm
      exact goes_leave hstack hz
    · split at hm
      · cases hm
        exact goes_tick ‹_›
      · cases hm
  · rename_i rest hstack
    cases hm
    exact (Part.pumped m _ rest hstack).goes
  · rename_i left rest _ hstack
    have hpop : Goes others m { m with stack := rest } := (Part.pumped m left rest hstack).goes
    split at hm
    · rename_i m'' htick
      cases hm
      exact (hpop.trans (Part.pump { m with stack := rest } (left.map (· - 1))).goes).trans
        (goes_tick htick)
    · cases hm
      exact hpop

end Made

/-! ### Runs and their histories -/

section Runs

variable {α : Type}

/-- What some workers can come to that run among some places, with all there is to tell of the run.
One of them moves, and the others have stacks of their own. -/
inductive Told : List (List (Frame α)) → Machine Pairwise α → List (Deed α) → Prop where
  | idle (places kind spins schedule) : places ≤ UInt32.size →
      Told [] (.idle (.start (.empty places) places kind spins) schedule) []
  | part {others m m' hist ds} : Told others m hist → Part others m ds m' → Told others m' (hist ++ ds)
  /-- There is one more worker, with nothing to do. -/
  | hire {others m hist} : Told others m hist → Told ([] :: others) m hist
  /-- Another worker moves. -/
  | switch {before after m hist} (stack) : Told (before ++ stack :: after) m hist →
      Told (before ++ m.stack :: after) (m.turnTo stack) hist

/-- What some workers can come to that run programs, one after the other or one within another, among
some places. One of them moves, and the others have stacks of their own. Programs keep to what is
allowed. -/
inductive Reached : List (List (Frame α)) → Machine Pairwise α → Prop where
  | idle (places kind spins schedule) : places ≤ UInt32.size →
      Reached [] (.idle (.start (.empty places) places kind spins) schedule)
  /-- A program begins, at a place that was made. -/
  | start {others m} (p : Program α) : Reached others m →
      (∀ place kind, p.setting = .inScope place kind → m.world.Built place) → Reached others (p.start m)
  /-- Whatever is left is let happen. -/
  | settle {others m} : Reached others m → Reached others (m.push (.pump none))
  | kill {others m p w} : Reached others m → m.world.kill p = .ok w →
      Reached others { m with world := w }
  /-- A worker that has nothing else to do lets something happen. -/
  | happen {others m m' ready} : Reached others m → m.happen ready = some m' → Reached others m'
  | step {others m m'} : Reached others m → m.Allowed others → m.step = .to m' → Reached others m'
  /-- There is one more worker, with nothing to do. -/
  | hire {others m} : Reached others m → Reached ([] :: others) m
  /-- Another worker moves. -/
  | switch {before after m} (stack) : Reached (before ++ stack :: after) m →
      Reached (before ++ m.stack :: after) (m.turnTo stack)

variable {m m' : Machine Pairwise α} {others : List (List (Frame α))} {hist : List (Deed α)}

theorem Told.goes (h : Told others m hist)
    (hg : Goes others m m') : ∃ ds, Told others m' (hist ++ ds) := by
  obtain ⟨ds, hp⟩ := hg
  induction hp with
  | refl => exact ⟨[], by rwa [List.append_nil]⟩
  | @tail _ _ _ ds' _ hp ih =>
    obtain ⟨ds, hd⟩ := ih
    exact ⟨ds ++ ds', by rw [← List.append_assoc]; exact hd.part hp⟩

theorem Reached.nested (h : Reached others m) : Nested m ∧ ∀ stack ∈ others, Restores stack := by
  induction h with
  | idle places kind spins schedule _ => exact ⟨.idle _ _, List.forall_mem_nil _⟩
  | start p _ _ ih => exact ⟨ih.1.start p, ih.2⟩
  | settle _ ih => exact ⟨ih.1.pump none, ih.2⟩
  | kill _ _ ih => exact ⟨ih.1.inWorld _, ih.2⟩
  | happen _ hm ih => exact ⟨ih.1.happen hm, ih.2⟩
  | step _ _ hs ih => exact ⟨ih.1.step hs, ih.2⟩
  | hire _ ih => exact ⟨ih.1, List.forall_mem_cons.mpr ⟨trivial, ih.2⟩⟩
  | switch stack _ ih =>
    obtain ⟨hn, hall⟩ := ih
    obtain ⟨hbefore, hafter⟩ := List.forall_mem_append.mp hall
    obtain ⟨hstack, hafter⟩ := List.forall_mem_cons.mp hafter
    exact ⟨⟨rfl, hstack⟩,
      List.forall_mem_append.mpr ⟨hbefore, List.forall_mem_cons.mpr ⟨hn.restores, hafter⟩⟩⟩

/-- Whatever runs programs has a history. -/
theorem Reached.told (h : Reached others m) : ∃ hist, Told others m hist := by
  have hgoes : ∀ {others : List (List (Frame α))} {m m' : Machine Pairwise α},
      (∃ hist, Told others m hist) → Goes others m m' → ∃ hist, Told others m' hist :=
    fun ⟨_, hm⟩ hg => by
      obtain ⟨ds, hd⟩ := hm.goes hg
      exact ⟨_, hd⟩
  induction h with
  | idle places kind spins schedule hp => exact ⟨_, .idle places kind spins schedule hp⟩
  | start p _ hp ih => exact hgoes ih (Part.start _ p hp).goes
  | settle _ ih => exact hgoes ih (Part.pump _ none).goes
  | kill _ hw ih => exact hgoes ih (Part.kill _ _ _ hw).goes
  | happen _ hm ih => exact hgoes ih (goes_happen hm)
  | step hr ha hs ih => exact hgoes ih (goes_step hr.nested.1 ha hs)
  | hire _ ih =>
    obtain ⟨hist, ht⟩ := ih
    exact ⟨hist, ht.hire⟩
  | switch stack _ ih =>
    obtain ⟨hist, ht⟩ := ih
    exact ⟨hist, ht.switch stack⟩

end Runs

end Machine

end Quiescence
