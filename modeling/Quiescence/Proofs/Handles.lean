/-
# Runs with handles that were resolved long ago

Away from home an instance is obtained by `resolve`, and its handle may be used
at any later time: by then the instance may have reported and given up its
identity, and another may have taken it. In such a run the operations on the
instances come in any order, and two things only are asked of it: a task ends
where it was accepted, and the identity of a scope is given up only at home,
when the scope is over. Nothing but the operations writes the registries.

* `Handling`: the operations, with the record of the tasks accepted and not ended.
* `Handled.tidy`: a world reached so is tidy.
* `one_live_instance`: each place has at most one instance of a scope with tasks,
  and it is the one bound to the identity; an instance refuses a task exactly
  when another is bound, which is never so while it holds one.
-/
import Quiescence.Network.Pairwise
import Quiescence.Proofs.World.Binding

namespace Quiescence

namespace World

variable {ν : Type → Type} {β : Type} [Network ν]

/-- One operation. `held` lists the tasks accepted and not ended, by the instance that accepted
them; away from home only those can end. -/
inductive Handling :
    World ν β → Multiset Serial → World ν β → Multiset Serial → Prop where
  | openScope (w held p kind) : w.Built p → Handling w held (w.openScope p kind).2 held
  | spawn (w held s target) : Handling w held (w.spawn s target) held
  | unspawn (w held s target) : Handling w held (w.unspawn s target) held
  /-- A handle is obtained, at home or at another place. -/
  | resolve (w held tok p) : w.Built p → Handling w held (w.resolve tok p).2 held
  /-- A handle is used, however old it is. -/
  | submit (w held s) : (w.instance? s).isSome →
      Handling w held (w.submit s).2 (if (w.submit s).1 then s ::ₘ held else held)
  /-- A handle is obtained and used at once. -/
  | accept (w held tok p s) : w.Built p → (w.accept tok p).1 = .ok s →
      Handling w held (w.accept tok p).2 (s ::ₘ held)
  | tell (w held s) : (∀ i id, w.instance? s = some i → i.remoteId? = some id → s ∈ held) →
      Handling w held (w.tell s) (held.erase s)
  | addSuppressed (w held s f) : Handling w held (w.addSuppressed s f) held
  | takeExceptions (w held s) : Handling w held (w.takeExceptions s).2 held
  | prepareTransfer (w held s) : Handling w held (w.prepareTransfer s).2 held
  /-- A report arrives at home. -/
  | update (w held s deltas) : (∀ i, w.instance? s = some i → i.remoteId? = none) →
      Handling w held (w.update s deltas) held
  /-- The identity of a scope is given up at home. -/
  | exit (w held s) : (∀ i, w.instance? s = some i → i.remoteId? = none) →
      Handling w held (w.exit s) held
  /-- Messages, jobs and diagnostics come and go as they like. -/
  | elsewhere (w held w') : w'.instances = w.instances → w'.table? = w.table? →
      Handling w held w' held

/-- The worlds reached by operations from one with no instance. -/
inductive Handled : World ν β → Multiset Serial → Prop where
  | start (net : ν (Message β)) (places : ℕ) (kind : ScopeKind) (spins : ℕ) :
      places ≤ UInt32.size → Handled (start net places kind spins) 0
  | step {w w' held held'} : Handled w held → Handling w held w' held' → Handled w' held'

variable {w w' : World ν β} {held held' : Multiset Serial}

theorem Tidy.handling (h : Tidy w held) (hs : Handling w held w' held') : Tidy w' held' := by
  cases hs with
  | openScope p kind hp => exact h.openScope hp kind
  | spawn s target => exact h.spawn s target
  | unspawn s target => exact h.unspawn s target
  | resolve tok p hp => exact h.resolve hp tok
  | submit s hs => exact h.submit hs
  | accept tok p s hp hs =>
    have h' := h.resolve hp tok
    cases hr : w.resolve tok p with
    | mk r w₁ =>
      rw [hr] at h'
      simp only [accept, hr] at hs ⊢
      cases r with
      | error e => cases hs
      | ok t =>
        cases hs
        obtain ⟨hb, i, hi, -⟩ := h.resolve_spec hp hr
        have := h'.submit (s := s) (by rw [hi]; rfl)
        rwa [h'.submit_of_bound hb, if_pos rfl] at this
  | tell s hs => exact h.tell hs
  | addSuppressed s f => exact h.addSuppressed s f
  | takeExceptions s => exact h.takeExceptions s
  | prepareTransfer s => exact h.prepareTransfer s
  | update s deltas hs => exact h.update hs deltas
  | exit s hs => exact h.exit hs
  | elsewhere _ hi ht => exact h.congr hi ht

theorem Handled.tidy (h : Handled w held) : Tidy w held := by
  induction h with
  | start net places kind spins hp => exact tidy_start net places kind spins hp
  | step _ hs ih => exact ih.handling hs

/-- In every world reached by operations: two instances of a scope at one place do not both hold
tasks; one that does is bound to the identity; one is flagged when it is bound; and one refuses a
task exactly when it is not bound and another value is, and so changes nothing. It does not refuse
while it holds a task. -/
theorem one_live_instance (h : Handled w held) :
    (∀ s t i j id, w.instance? s = some i → w.instance? t = some j →
      i.remoteId? = some id → j.remoteId? = some id → i.place = j.place →
      i.counters.count ≠ 0 → j.counters.count ≠ 0 → s = t) ∧
    ∀ s i id, w.instance? s = some i → i.remoteId? = some id →
      (i.counters.count ≠ 0 → w.bound? i.place id = some (.scope s)) ∧
      (i.bound = true ↔ w.bound? i.place id = some (.scope s)) ∧
      ((w.submit s).1 = false ↔
        i.bound = false ∧ ∃ b, b ≠ .scope s ∧ w.bound? i.place id = some b) ∧
      ((w.submit s).1 = false → (w.submit s).2 = w) ∧
      (s ∈ held → (w.submit s).1 = true) := by
  have ht := h.tidy
  have hbound : ∀ s i id, w.instance? s = some i → i.remoteId? = some id →
      i.counters.count ≠ 0 → w.bound? i.place id = some (.scope s) := fun s i id hi hr hc =>
    ht.bound_of_held hi hr (ht.held_of_count hi hr hc)
  refine ⟨fun s t i j id hi hj hri hrj hp hci hcj => ?_, fun s i id hi hr =>
    ⟨hbound s i id hi hr, ht.flag s i id hi hr, ht.submit_eq_false_iff hi hr, submit_refused,
      ht.submit_held⟩⟩
  have hs := hbound s i id hi hri hci
  have ht := hbound t j id hj hrj hcj
  rw [hp, ht] at hs
  exact (Binding.scope.inj (Option.some.inj hs)).symm

/-- A task is accepted at place 1 and ends, and then another comes: the second finds an instance of
its own, since the first has given up the identity. -/
def superseded : World Pairwise Unit :=
  let scope : Token := ⟨⟨⟨0⟩, 0⟩, .plain⟩
  let opened := ((start (Pairwise.empty 2) 2 .plain 0).openScope ⟨0⟩ .plain).2
  let ended := (((opened.prepareTransfer 0).2.accept scope ⟨1⟩).2).tell 1
  (ended.accept scope ⟨1⟩).2

/-- The first instance refuses what comes through an old handle. -/
theorem superseded_refuses :
    Handled superseded {2} ∧ (superseded.submit 1).1 = false ∧ (superseded.submit 1).2 = superseded := by
  have h : Handled superseded {2} := by
    have h0 : Handled (start (Pairwise.empty 2) 2 .plain 0 : World Pairwise Unit) 0 :=
      .start (Pairwise.empty 2) 2 .plain 0 (by decide)
    have h1 := (h0.step (.openScope _ _ ⟨0⟩ .plain rfl)).step (.prepareTransfer _ _ 0)
    have h2 := h1.step (.accept _ _ ⟨⟨⟨0⟩, 0⟩, .plain⟩ ⟨1⟩ 1 rfl rfl)
    have h3 := h2.step (.tell _ _ 1 fun _ _ _ _ => Multiset.mem_cons_self 1 0)
    rw [Multiset.erase_cons_head] at h3
    exact h3.step (.accept _ _ ⟨⟨⟨0⟩, 0⟩, .plain⟩ ⟨1⟩ 2 rfl rfl)
  have h1 := (one_live_instance h).2 1
    ⟨⟨1⟩, .plain, some ⟨⟨0⟩, 0⟩, ⟨0, some [0, 0]⟩, [], false, 0⟩ ⟨⟨0⟩, 0⟩ rfl rfl
  have h2 : (superseded.submit 1).1 = false :=
    h1.2.2.1.mpr ⟨rfl, .scope 2, by decide, rfl⟩
  exact ⟨h, h2, h1.2.2.2.1 h2⟩

end World

end Quiescence
