/-
# Whose body runs

The current activity is that of the innermost body on the stack, whatever has
been let happen meanwhile: each body restores the activity of the bodies that
it began within (`Nested`). Every part of a move keeps that.
-/
import Mathlib.Tactic.SplitIfs
import Mathlib.Data.Nat.Notation
import Quiescence.Program.Run

namespace Quiescence

namespace Machine

variable {ν : Type → Type} {α : Type} {m m' : Machine ν α}

/-- The activity that a body runs as: the scope that governs it is the first it is registered
with. -/
def Owner.activity? : Owner α → Option Activity
  | .scope s p _ => some ⟨p, s⟩
  | .task job => job.finishes.head?.map fun s => ⟨job.place, s⟩
  | .bare => none

/-- The activity of the innermost body of a stack. -/
def activity? : List (Frame α) → Option Activity
  | [] => none
  | .body _ owner _ :: _ => owner.activity?
  | .await _ _ :: rest => activity? rest
  | .pump _ :: rest => activity? rest

/-- Each body restores the activity of what is below it. -/
def Restores : List (Frame α) → Prop
  | [] => True
  | .body _ _ previous :: rest => previous = activity? rest ∧ Restores rest
  | .await _ _ :: rest => Restores rest
  | .pump _ :: rest => Restores rest

/-- The activities of a machine are nested as its bodies are. -/
structure Nested (m : Machine ν α) : Prop where
  current : m.current = activity? m.stack
  restores : Restores m.stack

namespace Nested

theorem congr (h : Nested m) (hs : m'.stack = m.stack) (hc : m'.current = m.current) : Nested m' :=
  ⟨by rw [hc, hs, h.current], hs ▸ h.restores⟩

theorem inWorld (h : Nested m) (w : World ν (Code α)) : Nested { m with world := w } :=
  h.congr rfl rfl

theorem idle (world : World ν (Code α)) (schedule : List ℕ) : Nested (idle world schedule) :=
  ⟨rfl, trivial⟩

theorem await (h : Nested m) (s : Serial) (resume : Resume) : Nested (m.push (.await s resume)) :=
  ⟨h.current, h.restores⟩

theorem pump (h : Nested m) (left : Option ℕ) : Nested (m.push (.pump left)) :=
  ⟨h.current, h.restores⟩

theorem enter (h : Nested m) (body : List (Action α)) (owner : Owner α) :
    Nested (m.enter owner.activity? body owner) :=
  ⟨rfl, h.current, h.restores⟩

variable [Network ν]

theorem close (h : Nested m) (owner : Owner α) (ending : Ending) : Nested (m.close owner ending) := by
  cases owner with
  | scope s p resume => exact (h.inWorld _).await s resume
  | task job =>
    unfold Machine.close
    dsimp only
    split
    · exact h.congr rfl rfl
    · exact h.congr rfl rfl
  | bare => exact h.congr rfl rfl

theorem endBody (h : Nested m) (ending : Ending) : Nested (m.endBody ending) := by
  unfold Machine.endBody
  split
  · rename_i rest owner previous below hstack
    have hr := h.restores
    rw [hstack] at hr
    exact close ⟨hr.1, hr.2⟩ owner ending
  · exact h

theorem refuse (h : Nested m) (guarded : Bool) (e : Raised) : Nested (m.refuse guarded e) := by
  unfold Machine.refuse
  split_ifs
  · exact h.congr rfl rfl
  · exact h.endBody _

theorem settle (h : Nested m) (guarded : Bool) (result : Except ScopeError Unit) :
    Nested (m.settle guarded result) := by
  cases result with
  | ok _ => exact h
  | error e => exact h.refuse guarded _

theorem withActivity (h : Nested m) (guarded : Bool) {act : Activity → Machine ν α}
    (ha : ∀ a, m.current = some a → Nested (act a)) : Nested (m.withActivity guarded act) := by
  unfold Machine.withActivity
  split
  · exact ha _ ‹_›
  · exact h.refuse guarded _

theorem handOver (h : Nested m) (guarded : Bool) (finishes : List Serial) (place target : PlaceId)
    (body : List (Action α)) : Nested (m.handOver guarded finishes place target body) := by
  unfold Machine.handOver
  split
  · exact h.refuse guarded _
  · exact (h.inWorld _).settle guarded _

theorem openScope (h : Nested m) (place : PlaceId) (kind : ScopeKind) (body : List (Action α))
    (resume : Resume) : Nested (m.openScope place kind body resume) :=
  (h.inWorld (m.world.openScope place kind).2).enter body
    (.scope (m.world.openScope place kind).1 place resume)

theorem openEvaluation (h : Nested m) (guarded : Bool) (place target : PlaceId)
    (body : List (Action α)) (answer : Answer α) :
    Nested (m.openEvaluation guarded place target body answer) :=
  ⟨h.current, h.restores⟩

/-- Performing an action keeps to the nesting, also if that ends the body. -/
theorem perform (h : Nested m) : ∀ (a : Action α) (guarded : Bool), Nested (m.perform guarded a)
  | .log _, _ | .grow _, _ => h.congr rfl rfl
  | .fail _, guarded => h.refuse guarded _
  | .panic _, _ => h.endBody _
  | .pump _, _ => h.pump _
  | .save _, guarded => h.withActivity guarded fun _ _ => h.congr rfl rfl
  | .info, guarded => h.withActivity guarded fun a _ => by
    split
    · exact h.congr rfl rfl
    · exact h
  | .kill p, guarded => by
    unfold Machine.perform
    split
    · exact h.congr rfl rfl
    · exact h.refuse guarded _
  | .spawn _, guarded | .spawnAt _ _, guarded | .spawnShared _ _ _, guarded =>
    h.withActivity guarded fun _ _ => h.handOver guarded _ _ _ _
  | .spawnAmong _ _ _, guarded | .spawnUnder _ _, guarded => by
    unfold Machine.perform
    dsimp only
    split
    · exact h.handOver guarded _ _ _ _
    · exact h.refuse guarded _
  | .scope none _, guarded => h.withActivity guarded fun _ _ => h.openScope _ _ _ _
  | .scope (some _) _, guarded => h.withActivity guarded fun a _ => by
    split
    · exact h.openScope _ _ _ _
    · exact h
  | .evaluate _ _ _, guarded => h.withActivity guarded fun _ _ => h.openEvaluation _ _ _ _ _
  | .attempt a, _ => by
    rw [Machine.perform]
    exact h.perform a true

theorem startJob (h : Nested m) (job : Job (Code α)) : Nested (m.startJob job) := by
  unfold Machine.startJob
  split
  · exact h.congr rfl rfl
  · rename_i s fs hfs
    have ha : some ⟨job.place, s⟩ = (Owner.task job).activity? := by
      rw [Owner.activity?, hfs]
      rfl
    rw [ha]
    refine enter ?_ _ _
    split
    · exact h.congr rfl rfl
    · exact h

theorem happen (h : Nested m) {ready : World.Ready} (hm : m.happen ready = some m') : Nested m' := by
  cases ready with
  | delivery lane =>
    obtain ⟨w, -, rfl⟩ := Option.map_eq_some_iff.mp hm
    exact h.congr rfl rfl
  | job i =>
    obtain ⟨⟨job, w⟩, -, rfl⟩ := Option.map_eq_some_iff.mp hm
    exact (h.inWorld w).startJob job

theorem tick (h : Nested m) (hm : m.tick = some m') : Nested m' := by
  unfold Machine.tick at hm
  dsimp only at hm
  split at hm
  · exact happen (m := { m with cursor := m.cursor + 1 }) (h.congr rfl rfl) hm
  · cases hm

theorem leave (h : Nested m) (s : Serial) (resume : Resume) : Nested (m.leave s resume) := by
  unfold Machine.leave
  cases resume with
  | body guarded => exact (h.inWorld _).settle guarded _
  | evaluation slot target guarded =>
    dsimp only
    split
    · exact (h.inWorld _).settle guarded _
    · exact h.congr rfl rfl
    · exact (h.inWorld _).settle guarded _
  | outcome => exact h.congr rfl rfl

/-- A move keeps the activities nested. -/
theorem step (h : Nested m) (hm : m.step = .to m') : Nested m' := by
  have hc := h.current
  have hr := h.restores
  unfold Machine.step at hm
  split at hm
  · cases hm
  · cases hm
    exact h.endBody _
  · rename_i a as owner previous rest hstack
    rw [hstack] at hc hr
    cases hm
    exact perform (m := { m with stack := .body as owner previous :: rest }) ⟨hc, hr⟩ a false
  · rename_i s resume rest hstack
    rw [hstack] at hc hr
    split_ifs at hm
    · cases hm
      exact leave (m := { m with stack := rest }) ⟨hc, hr⟩ s resume
    · split at hm
      · cases hm
        exact h.tick ‹_›
      · cases hm
  · rename_i rest hstack
    rw [hstack] at hc hr
    cases hm
    exact ⟨hc, hr⟩
  · rename_i left rest _ hstack
    rw [hstack] at hc hr
    split at hm
    · rename_i m'' htick
      cases hm
      exact tick (m := { m with stack := .pump (left.map (· - 1)) :: rest }) ⟨hc, hr⟩ htick
    · cases hm
      exact ⟨hc, hr⟩

theorem start (h : Nested m) (p : Program α) : Nested (p.start m) := by
  unfold Program.start
  split
  · exact h.enter p.body .bare
  · exact h.openScope _ _ _ _

end Nested

end Machine

end Quiescence
