/-
# A release is final, and wakes those who wait once

A spawn can bring the count of a root to zero, and wakes nobody; a retraction
would wake, and takes back what was counted a moment before. Neither happens to
an instance without a task of its own: while it holds one, the tallies with
whatever was counted since are not all zero (`Consistent.busy`). So spawns and
retractions leave an instance at home as it was, at every moment of a hand-over
(`Rests`, `Midway`).

* `Releases`: the steps that release an instance. Each is the end of a task or
  the report of another place, and its operation says so.
* `Consistent.rests_or_releases`: a step leaves all instances at home at rest, or
  releases one of them.
* `release_final`: what is released stays so, and was woken once.
* `release_undone`: neither is so where a task names instances that do not live at
  the place where it is spawned and runs.
-/
import Mathlib.Logic.Relation
import Quiescence.Proofs.Fidelity

namespace Quiescence

/-- The instance is the same one: it is where it was and keeps its identity, and one at home, which
may get one, stays at home. -/
structure Instance.Becomes (i j : Instance) : Prop where
  place : j.place = i.place
  id : ∀ id, i.id = some id → j.id = some id
  remoteId : j.remoteId? = i.remoteId?

namespace Instance.Becomes

variable {i j k : Instance}

theorem of_same (hp : j.place = i.place) (hid : j.id = i.id) : i.Becomes j :=
  ⟨hp, fun _ hx => hid.trans hx, remoteId?_congr hp hid⟩

theorem refl (i : Instance) : i.Becomes i := of_same rfl rfl

theorem trans (h : i.Becomes j) (h' : j.Becomes k) : i.Becomes k :=
  ⟨h'.place.trans h.place, fun id hx => h'.id id (h.id id hx), h'.remoteId.trans h.remoteId⟩

end Instance.Becomes

namespace World

section Rests

variable {ν : Type → Type} {β : Type} {w w' w'' : World ν β} {s : Serial} {i j : Instance}

/-- The instances stay, and what is new is not at home. -/
structure Keeps (w w' : World ν β) : Prop where
  old : ∀ s i, w.instance? s = some i → ∃ j, w'.instance? s = some j ∧ i.Becomes j
  new : ∀ s j, w.instance? s = none → w'.instance? s = some j → j.remoteId? ≠ none

/-- The instances at home are released as they were, besides, and none is woken. -/
structure Rests (w w' : World ν β) : Prop extends Keeps w w' where
  rest : ∀ s i j, w.instance? s = some i → w'.instance? s = some j → i.remoteId? = none →
    j.isReleasable = i.isReleasable ∧ j.wakes = i.wakes

/-- One instance changes. -/
theorem Keeps.of_set (hi : w.instance? s = some i)
    (hinst : ∀ t, w'.instance? t = if t = s then some j else w.instance? t)
    (hj : i.Becomes j) : Keeps w w' := by
  refine ⟨fun t x hx => ?_, fun t x hx hx' => ?_⟩
  · by_cases hts : t = s
    · subst hts
      obtain rfl : i = x := Option.some.inj (hi.symm.trans hx)
      exact ⟨j, by rw [hinst, if_pos rfl], hj⟩
    · exact ⟨x, by rw [hinst, if_neg hts, hx], .refl x⟩
  · rw [hinst] at hx'
    split_ifs at hx' with hts
    · rw [hts, hi] at hx
      cases hx
    · rw [hx] at hx'
      cases hx'

namespace Rests

theorem of_instances (h : w'.instance? = w.instance?) : Rests w w' := by
  refine ⟨⟨fun s i hi => ⟨i, by rw [h, hi], .refl i⟩, fun s j hi hj => ?_⟩, fun s i j hi hj _ => ?_⟩
  · rw [h, hi] at hj
    cases hj
  · rw [h, hi] at hj
    cases hj
    exact ⟨rfl, rfl⟩

theorem refl (w : World ν β) : Rests w w := of_instances rfl

theorem trans (h : Rests w w') (h' : Rests w' w'') : Rests w w'' := by
  refine ⟨⟨fun s i hi => ?_, fun s k hi hk => ?_⟩, fun s i k hi hk hr => ?_⟩
  · obtain ⟨j, hj, hij⟩ := h.old s i hi
    obtain ⟨k, hk, hjk⟩ := h'.old s j hj
    exact ⟨k, hk, hij.trans hjk⟩
  · cases hj : w'.instance? s with
    | none => exact h'.new s k hj hk
    | some j =>
      obtain ⟨x, hx, hjx⟩ := h'.old s j hj
      obtain rfl : k = x := Option.some.inj (hk.symm.trans hx)
      rw [hjx.remoteId]
      exact h.new s j hi hj
  · obtain ⟨j, hj, hij⟩ := h.old s i hi
    obtain ⟨h1, h2⟩ := h.rest s i j hi hj hr
    obtain ⟨h3, h4⟩ := h'.rest s j k hj hk (hij.remoteId.trans hr)
    exact ⟨h3.trans h1, h4.trans h2⟩

/-- One instance changes; at home it is released as it was. -/
theorem of_set (hi : w.instance? s = some i)
    (hinst : ∀ t, w'.instance? t = if t = s then some j else w.instance? t) (hj : i.Becomes j)
    (hrest : i.remoteId? = none → j.isReleasable = i.isReleasable ∧ j.wakes = i.wakes) :
    Rests w w' := by
  refine ⟨.of_set hi hinst hj, fun t x y hx hy hr => ?_⟩
  rw [hinst] at hy
  split_ifs at hy with hts
  · subst hts
    cases hy
    obtain rfl : i = x := Option.some.inj (hi.symm.trans hx)
    exact hrest hr
  · obtain rfl : x = y := Option.some.inj (hx.symm.trans hy)
    exact ⟨rfl, rfl⟩

/-- Away from home an instance does as it likes. -/
theorem of_away {id : GlobalId} (hi : w.instance? s = some i) (hid : i.remoteId? = some id)
    (hinst : ∀ t, w'.instance? t = if t = s then some j else w.instance? t) (hj : i.Becomes j) :
    Rests w w' :=
  of_set hi hinst hj fun hn => by rw [hid] at hn; cases hn

theorem of_add
    (hinst : ∀ t, w'.instance? t = if t = w.instances.length then some j else w.instance? t)
    (hj : j.remoteId? ≠ none) : Rests w w' := by
  have hold : ∀ t x, w.instance? t = some x → w'.instance? t = some x := fun t x hx => by
    rw [hinst, if_neg (Nat.ne_of_lt (serial_lt hx)), hx]
  refine ⟨⟨fun t x hx => ⟨x, hold t x hx, .refl x⟩, fun t x hx hx' => ?_⟩, fun t x y hx hy _ => ?_⟩
  · rw [hinst] at hx'
    split_ifs at hx'
    · cases hx'
      exact hj
    · rw [hx] at hx'
      cases hx'
  · obtain rfl : x = y := Option.some.inj ((hold t x hx).symm.trans hy)
    exact ⟨rfl, rfl⟩

end Rests

theorem rests_submit (w : World ν β) (s : Serial) : Rests w (w.submit s).2 := by
  cases hi : w.instance? s with
  | none =>
    rw [show w.submit s = (true, w) by simp [World.submit, hi]]
    exact .refl w
  | some i =>
    cases hr : i.remoteId? with
    | none =>
      rw [submit_home hi hr]
      exact .refl w
    | some id =>
      cases hb : i.bound with
      | true =>
        rw [submit_bound hi hr hb]
        exact .of_away hi hr (instance?_setInstance hi _) (.of_same rfl rfl)
      | false =>
        cases hf : w.bound? i.place id with
        | none =>
          rw [submit_rebinds hi hr hb hf]
          exact .of_away hi hr (instance?_setInstance hi _) (.of_same rfl rfl)
        | some b =>
          rw [submit_refuses hi hr hb hf]
          exact .refl w

theorem rests_submitAll (w : World ν β) (fs : List Serial) : Rests w (w.submitAll fs) :=
  List.foldlRecOn fs _ (.refl w) fun _ h s _ => h.trans (rests_submit _ s)

variable [Network ν]

theorem rests_resolve (w : World ν β) (tok : Token) (p : PlaceId) :
    Rests w (w.resolve tok p).2 := by
  cases hb : w.bound? p tok.id with
  | some b =>
    cases b with
    | scope s =>
      rw [resolve_bound hb]
      exact .refl w
    | foreign =>
      rw [resolve_foreign hb]
      exact .refl w
  | none =>
    by_cases hp : tok.id.home = p
    · rw [resolve_missing hb hp]
      exact .refl w
    · rw [resolve_fresh hb hp]
      exact .of_add (instance?_addInstance w _) fun hr =>
        hp (Instance.remoteId?_eq_none.mp hr tok.id rfl)

theorem rests_accept (w : World ν β) (tok : Token) (p : PlaceId) :
    Rests w (w.accept tok p).2 := by
  have h := rests_resolve w tok p
  rcases hr : w.resolve tok p with ⟨_ | s, w₁⟩ <;> rw [hr] at h <;> simp only [World.accept, hr]
  · exact h
  · exact h.trans (rests_submit w₁ s)

theorem rests_acceptAll (w : World ν β) (p : PlaceId) (tokens : List Token) :
    Rests w (w.acceptAll p tokens).2 := by
  induction tokens generalizing w with
  | nil => exact .refl w
  | cons tok tokens ih =>
    have h := rests_accept w tok p
    simp only [World.acceptAll]
    rcases hr : w.accept tok p with ⟨_ | s, w₁⟩ <;> rw [hr] at h
    · exact h
    · exact h.trans (ih w₁)

end Rests

variable {β : Type} {w w' u : World Pairwise β} {g g' : Ledger β}
  {limbo : Multiset (Serial × PlaceId)} {arrived : List (Packet (Message β))} {r s : Serial}
  {i j : Instance} {p target : PlaceId} {id : GlobalId} {fs : List Serial} {task : Task β}

/-! ### Instances that hold a task -/

/-- The instance is not released, if it is at home. -/
def Busy (w : World Pairwise β) (s : Serial) : Prop :=
  ∀ i, w.instance? s = some i → i.remoteId? = none → i.isReleasable = false

/-- Whatever tasks were counted since the accounts were right, an instance that holds one is not
released. -/
theorem Consistent.busy (h : Consistent w g limbo arrived) {d : Serial → ℕ → ℤ} (ho : Offset w u d)
    (hd : ∀ k, 0 ≤ d s k) (hs : s ∈ g.held) : u.Busy s := fun j hj hr => by
  obtain ⟨i, hi⟩ := Option.isSome_iff_exists.mp (h.tidy.made s hs)
  obtain ⟨x, hx, hdiff⟩ := ho.present s i hi
  obtain rfl : j = x := Option.some.inj (hj.symm.trans hx)
  have hir : i.remoteId? = none := hdiff.remoteId?.symm.trans hr
  obtain ⟨hexact, htally⟩ := hdiff.home hir (h.exact s i hi hir)
  by_contra hz
  have hz := (Counters.isReleased_iff hexact i.place).mp (Bool.not_eq_false _ ▸ hz)
  have hout := ((h.sound s i hi hir).settled_of_tally_add hd fun k => by
    rw [← hz k, htally]
    rfl).2 i.place.index
  -- one task at least is outstanding at the place, since the instance holds it
  have hpos : 0 < w.tasksAt s i.place.index g.held :=
    Multiset.countP_pos.mpr ⟨s, hs, .refl w s, (sitsAt_of (placeOf?_eq hi) _).mpr rfl⟩
  have hwhere := h.whereabouts s i i.place.index hi hir
  have hnonneg := hd i.place.index
  simp only [account, outstanding] at hout
  omega

theorem rests_spawn (hb : w.Busy s) (ha : (w.spawn s target).Busy s) :
    Rests w (w.spawn s target) := by
  cases hi : w.instance? s with
  | none =>
    rw [show w.spawn s target = w by simp [World.spawn, hi]]
    exact .refl w
  | some i =>
    cases hr : i.remoteId? with
    | none =>
      rw [spawn_home hi hr] at ha ⊢
      exact .of_set hi (instance?_setInstance hi _) (.of_same rfl rfl) fun _ =>
        ⟨(ha _ ((instance?_setInstance hi _ s).trans (if_pos rfl)) hr).trans (hb i hi hr).symm, rfl⟩
    | some id =>
      rw [spawn_away hi hr]
      exact .of_away hi hr (instance?_setInstance hi _) (.of_same rfl rfl)

/-- A retraction that leaves the instance with a task wakes nobody. -/
theorem rests_unspawn (hb : w.Busy s) (ha : (w.unspawn s target).Busy s) :
    Rests w (w.unspawn s target) := by
  cases hi : w.instance? s with
  | none =>
    rw [show w.unspawn s target = w by simp [World.unspawn, hi]]
    exact .refl w
  | some i =>
    cases hr : i.remoteId? with
    | none =>
      rw [unspawn_home hi hr] at ha ⊢
      have hz := ha _ ((instance?_setInstance hi _ s).trans (if_pos rfl)) hr
      refine .of_set hi (instance?_setInstance hi _) (.of_same rfl rfl) fun _ =>
        ⟨hz.trans (hb i hi hr).symm, if_neg ?_⟩
      rw [Counters.released_unspawnAtHome]
      exact (Bool.not_eq_true _).mpr hz
    | some id =>
      rw [unspawn_away hi hr]
      exact .of_away hi hr (instance?_setInstance hi _) (.of_same rfl rfl)

theorem Consistent.rests_spawnAll (h : Consistent w g limbo arrived) {d : Serial → ℕ → ℤ}
    (ho : Offset w u d) (hd : ∀ s k, 0 ≤ d s k) (hs : ∀ s ∈ fs, s ∈ g.held) (target : PlaceId) :
    Rests u (u.spawnAll fs target) := by
  induction fs generalizing u d with
  | nil => exact .refl u
  | cons s fs ih =>
    have hsh := hs s (List.mem_cons_self ..)
    have ho' := ho.spawn s target
    have hd' : ∀ t k, 0 ≤ (d + batch [s] target 1) t k := fun t k =>
      add_nonneg (hd t k) (batch_nonneg [s] target t k)
    rw [show batch [s] target 1 = Pi.single s (Pi.single target.index 1) from add_zero _] at hd'
    exact (rests_spawn (h.busy ho (hd s) hsh) (h.busy ho' (hd' s) hsh)).trans
      (ih ho' hd' fun t ht => hs t (List.mem_cons_of_mem _ ht))

/-- Each retraction takes back one of the spawns that are left. -/
theorem Consistent.rests_unspawnAll (h : Consistent w g limbo arrived) {rest : List Serial}
    (ho : Offset w u (batch (fs ++ rest) target 1)) (hs : ∀ s ∈ fs, s ∈ g.held)
    (hre : ∀ s ∈ fs, u.Retractable s target) : Rests u (u.unspawnAll fs target) := by
  induction fs generalizing u with
  | nil => exact .refl u
  | cons s fs ih =>
    have hsh := hs s (List.mem_cons_self ..)
    have ho' := ho.unspawn (hre s (List.mem_cons_self ..))
    rw [List.cons_append, batch_cons_neg] at ho'
    exact (rests_unspawn (h.busy ho (batch_nonneg _ _ s) hsh)
      (h.busy ho' (batch_nonneg _ _ s) hsh)).trans
        (ih ho' (fun t ht => hs t (List.mem_cons_of_mem _ ht))
          fun t ht => (hre t (List.mem_cons_of_mem _ ht)).unspawn s target)

/-! ### Handing over -/

theorem Consistent.rests_prepareTransfer (h : Consistent w g limbo arrived) (s : Serial) :
    Rests w (w.prepareTransfer s).2 := by
  cases hi : w.instance? s with
  | none =>
    rw [show w.prepareTransfer s = (.error (.allocate (.unknown default w.known)), w) by
      simp [World.prepareTransfer, hi]]
    exact .refl w
  | some i =>
    cases hid : i.id with
    | some id =>
      rw [prepareTransfer_known hi hid]
      exact .refl w
    | none =>
      rcases prepareTransfer_cases (h.tidy.built s i hi) h.named.allocated hi hid with ⟨e, he⟩ | ⟨id, -, hc⟩
      · rw [he]
        exact .refl w
      · have hr : i.remoteId? = none := Instance.remoteId?_eq_none.mpr fun id' hx => by
          rw [hid] at hx
          cases hx
        have hr' : Instance.remoteId? { i with id := some id } = none :=
          Instance.remoteId?_eq_none.mpr fun id' hx => by
            cases hx
            exact hc.home
        refine .of_set hi hc.new ⟨rfl, fun id' hx => ?_, hr'.trans hr.symm⟩ fun _ => ⟨rfl, rfl⟩
        rw [hid] at hx
        cases hx

theorem Consistent.rests_prepareAll (h : Consistent w g limbo arrived) (fs : List Serial) :
    Rests w (w.prepareAll fs).2 := by
  induction fs generalizing w with
  | nil => exact .refl w
  | cons s fs ih =>
    have h0 := h.rests_prepareTransfer s
    have h1 := ih (h.prepareTransfer s)
    simp only [World.prepareAll]
    rcases hr : w.prepareTransfer s with ⟨_ | tok, w₁⟩ <;> rw [hr] at h0 h1
    · exact h0
    · have h2 := h0.trans h1
      simp only
      rcases hr' : w₁.prepareAll fs with ⟨_ | ts, w₂⟩ <;> rw [hr'] at h2 <;> exact h2

/-- The worlds that handing over a task goes through. -/
inductive Midway (w : World Pairwise β) (task : Task β) (p target : PlaceId) :
    World Pairwise β → Prop where
  /-- A task for the place itself is counted. -/
  | counted (gs) : target = p → gs <+: task.finishes → Midway w task p target (w.spawnAll gs p)
  | submitted (gs) : target = p → gs <+: task.finishes →
      Midway w task p target ((w.spawnAll task.finishes p).submitAll gs)
  | prepared (gs) : target ≠ p → gs <+: task.finishes →
      Midway w task p target (w.prepareAll gs).2
  /-- A task for another place is counted. -/
  | charged (tokens w₁ gs) : target ≠ p → w.prepareAll task.finishes = (.ok tokens, w₁) →
      gs <+: task.finishes → Midway w task p target (w₁.spawnAll gs target)
  /-- It is refused, and taken back. -/
  | retracted (tokens w₁ gs) : target ≠ p → w.prepareAll task.finishes = (.ok tokens, w₁) →
      gs <+: task.finishes →
      Midway w task p target ((w₁.spawnAll task.finishes target).unspawnAll gs target)

theorem Consistent.rests_midway (h : Consistent w g limbo arrived)
    (hs : ∀ s ∈ task.finishes, s ∈ g.held) (hm : Midway w task p target u) : Rests w u := by
  have hzero : ∀ (s : Serial) (k : ℕ), (0 : ℤ) ≤ (0 : Serial → ℕ → ℤ) s k := fun _ _ => le_rfl
  cases hm with
  | counted fs _ hf =>
    exact h.rests_spawnAll (.refl w) hzero (fun s hx => hs s (hf.subset hx)) p
  | submitted fs => exact (h.rests_spawnAll (.refl w) hzero hs p).trans (rests_submitAll _ fs)
  | prepared fs => exact h.rests_prepareAll fs
  | charged tokens w₁ fs _ hw hf =>
    have h0 := h.rests_prepareAll task.finishes
    have h1 := (h.prepareAll task.finishes).1
    rw [hw] at h0 h1
    exact h0.trans (h1.rests_spawnAll (.refl w₁) hzero (fun s hx => hs s (hf.subset hx)) target)
  | retracted tokens w₁ fs _ hw hf =>
    have h0 := h.rests_prepareAll task.finishes
    have h1 := (h.prepareAll task.finishes).1
    rw [hw] at h0 h1
    obtain ⟨rest, hrest⟩ := hf
    have ho := (Offset.refl w₁).spawnAll task.finishes target
    rw [zero_add, ← hrest] at ho
    rw [← hrest] at hs ⊢
    exact (h0.trans (h1.rests_spawnAll (.refl w₁) hzero hs target)).trans
      (h1.rests_unspawnAll ho (fun s hx => hs s (List.mem_append_left _ hx)) fun s hx =>
        retractable_spawnAll w₁ _ target s (List.mem_append_left _ hx))

theorem Consistent.rests_spawnAt (h : Consistent w g limbo arrived)
    (hs : ∀ s ∈ task.finishes, s ∈ g.held) (p target : PlaceId) :
    Rests w (w.spawnAt task p target).2 := by
  unfold World.spawnAt
  split_ifs with htp
  · exact (h.rests_midway hs (.submitted task.finishes htp (List.prefix_refl _))).trans
      (.of_instances rfl)
  · rcases hw : w.prepareAll task.finishes with ⟨_ | tokens, w₁⟩
    · have := h.rests_prepareAll task.finishes
      rwa [hw] at this
    · have hp := List.prefix_refl task.finishes
      simp only [World.send]
      cases Network.send (w₁.spawnAll task.finishes target).net
          ⟨p, target, Message.handOff tokens task.body⟩ with
      | ok net => exact (h.rests_midway hs (.charged tokens w₁ _ htp hw hp)).trans (.of_instances rfl)
      | error e => exact h.rests_midway hs (.retracted tokens w₁ _ htp hw hp)

/-! ### Releases -/

/-- The steps that release an instance at home: it is told that a task ended, the report of another
place is added to it, or a failure arrives and is told. The operation on its counters says that it
is released, so those who wait are woken. -/
inductive Releases (w : World Pairwise β) (r : Serial) (i : Instance) : World Pairwise β → Prop where
  | tell : (i.counters.tellAtHome i.place w.known).1.released = true → Releases w r i (w.tell r)
  | update (lane sender id deltas net w') :
      Network.take w.net lane = some (⟨sender, i.place, .report id deltas⟩, net) →
      w.deliver lane = some w' → i.id = some id →
      (i.counters.update i.place deltas w.known).1 = true → Releases w r i w'
  | failure (lane sender id payload net w') :
      Network.take w.net lane = some (⟨sender, i.place, .failure id payload⟩, net) →
      w.deliver lane = some w' → i.id = some id →
      (i.counters.tellAtHome i.place w.known).1.released = true → Releases w r i w'

/-- One instance at home is released, and its waiters are woken. -/
structure Frees (w w' : World Pairwise β) (r : Serial) (i j : Instance) : Prop where
  old : w.instance? r = some i
  new : ∀ t, w'.instance? t = if t = r then some j else w.instance? t
  home : i.remoteId? = none
  becomes : i.Becomes j
  before : i.isReleasable = false
  after : j.isReleasable = true
  wakes : j.wakes = i.wakes + 1

theorem Frees.keeps (h : Frees w w' r i j) : Keeps w w' := .of_set h.old h.new h.becomes

/-- What is done to an instance that is not released either leaves it so, or releases it. -/
theorem rests_or_frees (hi : w.instance? r = some i)
    (hinst : ∀ t, w'.instance? t = if t = r then some j else w.instance? t)
    (hr : i.remoteId? = none) (hj : i.Becomes j) (hz : i.isReleasable = false)
    (hw : j.wakes = if j.isReleasable then i.wakes + 1 else i.wakes) :
    Rests w w' ∨ (Frees w w' r i j ∧ j.isReleasable = true) := by
  cases hjz : j.isReleasable with
  | false =>
    rw [hjz] at hw
    exact .inl (.of_set hi hinst hj fun _ => ⟨hjz.trans hz.symm, hw⟩)
  | true =>
    rw [hjz] at hw
    exact .inr ⟨⟨hi, hinst, hr, hj, hz, hjz, hw⟩, rfl⟩

theorem Consistent.tells (h : Consistent w g limbo arrived) (hs : s ∈ g.held) :
    Rests w (w.tell s) ∨ ∃ i j, Frees w (w.tell s) s i j ∧ Releases w s i (w.tell s) := by
  cases hi : w.instance? s with
  | none =>
    rw [show w.tell s = w by simp [World.tell, hi]]
    exact .inl (.refl w)
  | some i =>
    cases hr : i.remoteId? with
    | none =>
      have hz := h.busy (.refl w) (fun _ => le_rfl) hs i hi hr
      have hflag := Counters.released_tellAtHome (h.exact s i hi hr) i.place w.known
      have hinst := instance?_setInstance hi (i.retire
        (i.counters.tellAtHome i.place w.known).1.released (i.counters.tellAtHome i.place w.known).2)
      rw [← tell_home hi hr] at hinst
      refine (rests_or_frees hi hinst hr (.of_same rfl rfl) hz ?_).imp_right fun hfree =>
        ⟨i, _, hfree.1, .tell (hflag.trans hfree.2)⟩
      simp only [Instance.retire, Instance.isReleasable, hflag]
    | some id =>
      cases hd : i.counters.tellAway i.place w.known with
      | mk deltas c =>
        cases deltas with
        | none =>
          rw [tell_away_quiet hi hr hd]
          exact .inl (.of_away hi hr (instance?_setInstance hi _) (.of_same rfl rfl))
        | some deltas => exact .inl (.of_away hi hr (tell_last hi hr hd).2.1 (.of_same rfl rfl))

/-- A root to which something is on its way is not released. -/
theorem Consistent.not_releasable (h : Consistent w g limbo arrived) (hi : w.instance? r = some i)
    (hr : i.remoteId? = none)
    (hm : (∃ q, w.episodes g q i.id ≠ []) ∨
      ∃ k, carriedAt i.id k (w.net.packets ++ g.astray ++ arrived) ≠ 0) :
    i.isReleasable = false := by
  by_contra hz
  have hz := (Counters.isReleased_iff (h.exact r i hi hr) i.place).mp (Bool.not_eq_false _ ▸ hz)
  obtain ⟨he, ho⟩ := h.settled hi hr hz
  rcases hm with ⟨q, hq⟩ | ⟨k, hk⟩
  · exact hq (he q)
  · exact hk (ho k).2.2.1

theorem Consistent.delivers (h : Consistent w g limbo []) {lane : Lane}
    (hw : w.deliver lane = some w') :
    Rests w w' ∨ ∃ r i j, Frees w w' r i j ∧ Releases w r i w' := by
  obtain ⟨⟨pk, net⟩, ht, hw₂⟩ : ∃ out, Network.take w.net lane = some out ∧
      ({ w with net := out.2 }.receive out.1.dest out.1.content) = w' := by
    unfold World.deliver at hw
    split at hw
    · cases hw
    · exact ⟨_, ‹_›, Option.some.inj hw⟩
  obtain ⟨before, after, hp, hnet, hb⟩ := take_spec ht
  obtain ⟨w₁, ha, hct⟩ := h.arrival hp
  simp only [hnet] at hw₂
  rw [hw₂] at hct
  have hal := hct.toAlike
  have hrest : ∀ {x : World Pairwise β}, Rests (w.withPackets (before ++ after)) x → Alike x w' →
      Rests w w' := fun hx hal' =>
    have h0 : Rests w (w.withPackets (before ++ after)) := .of_instances rfl
    (h0.trans hx).trans (.of_instances hal'.instance?)
  have hnew : ∀ {r : Serial} {j : Instance}, (∀ t, w₁.instance? t =
      if t = r then some j else (w.withPackets (before ++ after)).instance? t) →
      ∀ t, w'.instance? t = if t = r then some j else w.instance? t := fun hx t => by
    rw [hal.instance?]
    exact hx t
  generalize (w.withPackets (before ++ after)).afterArrival g pk = g' at ha
  cases ha with
  | stray sender dest tokens body => exact .inl (hrest (.refl _) hal)
  | task sender dest tokens body accepted w₂ hbuilt hacc hps =>
    have h1 := rests_acceptAll (w.withPackets (before ++ after)) dest tokens
    rw [hacc] at h1
    have h2 : Rests w₂ (w₂.enqueue ⟨dest, accepted, body⟩) := .of_instances rfl
    exact .inl (hrest (h1.trans h2) hal)
  | report sender dest id deltas =>
    obtain ⟨rfl, r, i, hi, hid, hip, hr, hbound, -, hfirst⟩ := h.root_of_report hp hb
    have hz : i.isReleasable = false :=
      h.not_releasable hi hr (.inl ⟨sender, by rw [hid, hfirst]; exact List.cons_ne_nil _ _⟩)
    have hi' : (w.withPackets (before ++ after)).instance? r = some i := hi
    have hinst := instance?_setInstance hi' (i.retire
      (i.counters.update i.place deltas (w.withPackets (before ++ after)).known).1
      (i.counters.update i.place deltas (w.withPackets (before ++ after)).known).2)
    rw [← receiveReport_root hi' hbound] at hinst
    exact (rests_or_frees hi (hnew hinst) hr (.of_same rfl rfl) hz rfl).imp_right fun hfree =>
      ⟨r, i, _, hfree.1, .update lane sender id deltas net w' (hip ▸ ht) hw hid hfree.2⟩
  | failure sender id payload r i hne hi' hid hip hr hl =>
    have hi : w.instance? r = some i := hi'
    have hz : i.isReleasable = false := by
      refine h.not_releasable hi hr (.inr ⟨id.home.index, ?_⟩)
      rw [hid, hp]
      simp only [carriedAt_append, carriedAt_cons, Message.carried, if_pos]
      omega
    have hflag := Counters.released_tellAtHome (h.exact r i hi hr) i.place w.known
    refine (rests_or_frees hi (hnew (deliverFailure_root hi' hr hl payload)) hr (.of_same rfl rfl)
      hz ?_).imp_right fun hfree => ⟨r, i, _, hfree.1,
        .failure lane sender id payload net w' (hip ▸ ht) hw hid (hflag.trans hfree.2)⟩
    exact congrArg (fun b : Bool => if b then i.wakes + 1 else i.wakes) hflag

theorem Consistent.rests_fail (h : Consistent w g limbo arrived) (hs : s ∈ g.held) (f : Failure) :
    Rests w (w.addSuppressed s f) := by
  obtain ⟨i, hi⟩ := Option.isSome_iff_exists.mp (h.tidy.made s hs)
  cases hr : i.remoteId? with
  | none =>
    have hc := changes_retain hi f { i with exceptions := i.exceptions ++ [f] } rfl rfl
    rw [addSuppressed_home hi hr]
    exact .of_set hi hc.new (.of_same rfl rfl) fun _ => ⟨rfl, rfl⟩
  | some id =>
    obtain ⟨j, hc⟩ := changes_addSuppressed hi f
    exact .of_away hi hr hc.new (.of_same hc.place hc.id)

theorem rests_leave (hi : w.instance? r = some i) : Rests w (w.leave r).2 :=
  .of_set hi (leave_spec hi).2.2.1 (.of_same rfl rfl) fun _ => ⟨rfl, rfl⟩

/-- A step opens a scope, or leaves the instances at home at rest, or releases one of them. -/
theorem Consistent.rests_or_releases (h : Consistent w g 0 []) (hs : Step w g w' g') :
    (∃ p kind, w' = (w.openScope p kind).2) ∨ Rests w w' ∨
      ∃ r i j, Frees w w' r i j ∧ Releases w r i w' := by
  cases hs with
  | openScope p kind hp => exact .inl ⟨p, kind, rfl⟩
  | spawn task p target hs =>
    exact .inr (.inl (h.rests_spawnAt (fun s hx => (hs s hx).1) p target))
  | fail s f hs => exact .inr (.inl (h.rests_fail hs f))
  | tell s hs => exact .inr ((h.tells hs).imp_right fun ⟨i, j, hf⟩ => ⟨s, i, j, hf⟩)
  | deliver lane _ hw => exact .inr (h.delivers hw)
  | leave r i hi hr hz => exact .inr (.inl (rests_leave hi))
  | kill p _ hw =>
    cases hw
    exact .inr (.inl (.of_instances rfl))
  | resize known hl => exact .inr (.inl (.of_instances rfl))
  | elsewhere _ ha => exact .inr (.inl (.of_instances ha.instance?))

/-- What a step does to an instance at home. -/
theorem Consistent.step_root (h : Consistent w g 0 []) (hs : Step w g w' g')
    (hi : w.instance? r = some i) (hr : i.remoteId? = none) :
    ∃ j, w'.instance? r = some j ∧ j.remoteId? = none ∧
      ((j.isReleasable = i.isReleasable ∧ j.wakes = i.wakes) ∨
        (i.isReleasable = false ∧ j.isReleasable = true ∧ j.wakes = i.wakes + 1 ∧
          Releases w r i w')) := by
  rcases h.rests_or_releases hs with ⟨p, kind, rfl⟩ | hrest | ⟨r', i', j', hf, hrel⟩
  · exact ⟨i, (instance?_addInstance w _ r).trans
      ((if_neg (Nat.ne_of_lt (serial_lt hi))).trans hi), hr, .inl ⟨rfl, rfl⟩⟩
  · obtain ⟨j, hj, hij⟩ := hrest.old r i hi
    exact ⟨j, hj, hij.remoteId.trans hr, .inl (hrest.rest r i j hi hj hr)⟩
  · by_cases hrr : r = r'
    · subst hrr
      obtain rfl : i = i' := Option.some.inj (hi.symm.trans hf.old)
      exact ⟨j', (hf.new r).trans (if_pos rfl), hf.becomes.remoteId.trans hr,
        .inr ⟨hf.before, hf.after, hf.wakes, hrel⟩⟩
    · exact ⟨i, by rw [hf.new, if_neg hrr, hi], hr, .inl ⟨rfl, rfl⟩⟩

/-- An instance at home was woken once if it is released, and never if it is not. -/
def Woken (w : World Pairwise β) : Prop :=
  ∀ r i, w.instance? r = some i → i.remoteId? = none → i.wakes = if i.isReleasable then 1 else 0

theorem woken_openScope (hw : Woken w) (p : PlaceId) (kind : ScopeKind) :
    Woken (w.openScope p kind).2 := fun r i hi hr => by
  have hi := (instance?_addInstance w _ r).symm.trans hi
  split_ifs at hi
  · cases hi
    simp [Instance.isReleasable, Counters.isReleased, Counters.spawnAtHome, Counters.zero]
  · exact hw r i hi hr

theorem Woken.step (hw : Woken w) (h : Consistent w g 0 []) (hs : Step w g w' g') :
    Woken w' := by
  rcases h.rests_or_releases hs with ⟨p, kind, rfl⟩ | hrest | ⟨r', i', j', hf, -⟩
  · exact woken_openScope hw p kind
  · intro r j hj hr
    cases hi : w.instance? r with
    | none => exact absurd hr (hrest.new r j hi hj)
    | some i =>
      obtain ⟨x, hx, hix⟩ := hrest.old r i hi
      obtain rfl : j = x := Option.some.inj (hj.symm.trans hx)
      have hir := hix.remoteId.symm.trans hr
      obtain ⟨h1, h2⟩ := hrest.rest r i j hi hj hir
      rw [h1, h2]
      exact hw r i hi hir
  · intro r j hj hr
    rw [hf.new] at hj
    split_ifs at hj
    · cases hj
      rw [hf.wakes, hw r' i' hf.old hf.home, hf.before, hf.after]
      rfl
    · exact hw r j hj hr

theorem Reachable.woken (h : Reachable w g) : Woken w := by
  induction h with
  | start net places kind spins hn hp =>
    intro r i hi
    simp [World.start, instance?] at hi
  | step h hs ih => exact ih.step h.consistent hs

/-- A released instance at home stays released, and is not woken again. -/
theorem Reachable.stays (h : Reachable w g) (hi : w.instance? r = some i) (hr : i.remoteId? = none)
    (hz : i.isReleasable = true) (hs : Steps w g w' g') :
    Reachable w' g' ∧ ∃ j, w'.instance? r = some j ∧ j.remoteId? = none ∧ j.isReleasable = true ∧
      j.wakes = i.wakes := by
  suffices hx : ∀ b : World Pairwise β × Ledger β, Relation.ReflTransGen
      (fun a b : World Pairwise β × Ledger β => Step a.1 a.2 b.1 b.2) (w, g) b →
      Reachable b.1 b.2 ∧ ∃ j, b.1.instance? r = some j ∧ j.remoteId? = none ∧
        j.isReleasable = true ∧ j.wakes = i.wakes from hx _ hs
  intro b hb
  induction hb with
  | refl => exact ⟨h, i, hi, hr, hz, rfl⟩
  | tail _ hstep ih =>
    obtain ⟨h1, j, hj, hjr, hjz, hjw⟩ := ih
    obtain ⟨k, hk, hkr, hcase⟩ := h1.consistent.step_root hstep hj hjr
    refine ⟨h1.step hstep, k, hk, hkr, ?_⟩
    rcases hcase with ⟨h2, h3⟩ | ⟨h2, -⟩
    · exact ⟨h2.trans hjz, h3.trans hjw⟩
    · rw [hjz] at h2
      cases h2

/-- In every run: an instance at home has been woken once if it is released, and never if it is not.
A step that releases it is the end of a task or a report, which says so and wakes it; no moment
within a hand-over does, no spawn and no retraction. Once it is released it is so at all later
times, and is not woken again. -/
theorem release_final (h : Reachable w g) (hi : w.instance? r = some i) (hr : i.remoteId? = none) :
    i.wakes = (if i.isReleasable then 1 else 0) ∧
    (∀ w' g', Step w g w' g' → ∃ j, w'.instance? r = some j ∧ j.remoteId? = none ∧
      (i.isReleasable = false → j.isReleasable = true →
        Releases w r i w' ∧ j.wakes = i.wakes + 1)) ∧
    (∀ task p target u, (∀ s ∈ task.finishes, s ∈ g.held) → Midway w task p target u →
      ∃ j, u.instance? r = some j ∧ j.remoteId? = none ∧ j.isReleasable = i.isReleasable ∧
        j.wakes = i.wakes) ∧
    (i.isReleasable = true → ∀ w' g', Steps w g w' g' → ∃ j, w'.instance? r = some j ∧
      j.remoteId? = none ∧ j.isReleasable = true ∧ j.wakes = i.wakes) := by
  refine ⟨h.woken r i hi hr, fun w' g' hs => ?_, fun task p target u hs hm => ?_,
    fun hz w' g' hs => (h.stays hi hr hz hs).2⟩
  · obtain ⟨j, hj, hjr, hcase⟩ := h.consistent.step_root hs hi hr
    refine ⟨j, hj, hjr, fun hz hz' => ?_⟩
    rcases hcase with ⟨h1, -⟩ | ⟨-, -, h3, h4⟩
    · rw [hz, hz'] at h1
      cases h1
    · exact ⟨h4, h3⟩
  · have hrest := h.consistent.rests_midway hs hm
    obtain ⟨j, hj, hij⟩ := hrest.old r i hi
    exact ⟨j, hj, hij.remoteId.trans hr, hrest.rest r i j hi hj hr⟩

/-- The root is released, and its waiters have been woken once. -/
theorem roundTrip_woken : ∃ i, roundTrip.1.instance? 0 = some i ∧ i.remoteId? = none ∧
    i.isReleasable = true ∧ i.wakes = 1 := by
  obtain ⟨i, hi, hr, hz⟩ : ∃ i, roundTrip.1.instance? 0 = some i ∧ i.remoteId? = none ∧
      i.isReleasable = true := ⟨_, rfl, rfl, rfl⟩
  have hw := (release_final reachable_roundTrip hi hr).1
  rw [hz] at hw
  exact ⟨i, hi, hr, hz, hw⟩

/-! ### Tasks of instances that live elsewhere -/

/-- A step of a run in which a task that is to run where it is spawned, too, may name any instances that
hold a task. -/
inductive LaxStep : World Pairwise β → Ledger β → World Pairwise β → Ledger β → Prop where
  | step {w w' : World Pairwise β} {g g' : Ledger β} : Step w g w' g' → LaxStep w g w' g'
  | spawnHere (w : World Pairwise β) (g : Ledger β) (task : Task β) (p : PlaceId) :
      (∀ s ∈ task.finishes, s ∈ g.held) →
      LaxStep w g (w.spawnAt task p p).2 (w.afterSpawn g task p p)

inductive LaxReachable : World Pairwise β → Ledger β → Prop where
  | start {w : World Pairwise β} {g : Ledger β} : Reachable w g → LaxReachable w g
  | step {w w' : World Pairwise β} {g g' : Ledger β} :
      LaxReachable w g → LaxStep w g w' g' → LaxReachable w' g'

/-- A scope at place 0 has a task at place 1. A task at place 0 is registered with the instance there,
which reports more tasks ended at place 1 than were spawned. One more task for place 1 leaves a tally of
zero, and spawns two for place 0, which end. -/
def overpaid : World Pairwise Unit × Ledger Unit :=
  let w₀ : World Pairwise Unit := start (Pairwise.empty 2) 2 .plain 0
  let w₁ := (w₀.openScope ⟨0⟩ .plain).2
  let g₁ := w₀.afterOpen .empty ⟨0⟩
  let w₂ := (w₁.spawnAt ⟨[0], ⟨0⟩, ()⟩ ⟨0⟩ ⟨1⟩).2
  let g₂ := w₁.afterSpawn g₁ ⟨[0], ⟨0⟩, ()⟩ ⟨0⟩ ⟨1⟩
  let w₃ := (w₂.deliver ⟨some ⟨0⟩, ⟨1⟩⟩).getD w₂
  let g₃ := w₂.afterDelivery g₂ ⟨some ⟨0⟩, ⟨1⟩⟩
  let w₄ := (w₃.spawnAt ⟨[1], ⟨0⟩, ()⟩ ⟨0⟩ ⟨0⟩).2
  let g₄ := w₃.afterSpawn g₃ ⟨[1], ⟨0⟩, ()⟩ ⟨0⟩ ⟨0⟩
  let w₅ := (w₄.tell 1).tell 1
  let g₅ := (w₄.tell 1).afterTell (w₄.afterTell g₄ 1) 1
  let w₆ := (w₅.deliver ⟨some ⟨1⟩, ⟨0⟩⟩).getD w₅
  let g₆ := w₅.afterDelivery g₅ ⟨some ⟨1⟩, ⟨0⟩⟩
  let w₇ := (w₆.spawnAt ⟨[0], ⟨0⟩, ()⟩ ⟨0⟩ ⟨1⟩).2
  let g₇ := w₆.afterSpawn g₆ ⟨[0], ⟨0⟩, ()⟩ ⟨0⟩ ⟨1⟩
  let w₈ := (w₇.deliver ⟨some ⟨0⟩, ⟨1⟩⟩).getD w₇
  let g₈ := w₇.afterDelivery g₇ ⟨some ⟨0⟩, ⟨1⟩⟩
  let w₉ := (w₈.spawnAt ⟨[2], ⟨1⟩, ()⟩ ⟨1⟩ ⟨0⟩).2
  let g₉ := w₈.afterSpawn g₈ ⟨[2], ⟨1⟩, ()⟩ ⟨1⟩ ⟨0⟩
  let w₁₀ := (w₉.deliver ⟨some ⟨1⟩, ⟨0⟩⟩).getD w₉
  let g₁₀ := w₉.afterDelivery g₉ ⟨some ⟨1⟩, ⟨0⟩⟩
  let w₁₁ := (w₁₀.spawnAt ⟨[2], ⟨1⟩, ()⟩ ⟨1⟩ ⟨0⟩).2
  let g₁₁ := w₁₀.afterSpawn g₁₀ ⟨[2], ⟨1⟩, ()⟩ ⟨1⟩ ⟨0⟩
  let w₁₂ := (w₁₁.deliver ⟨some ⟨1⟩, ⟨0⟩⟩).getD w₁₁
  let g₁₂ := w₁₁.afterDelivery g₁₁ ⟨some ⟨1⟩, ⟨0⟩⟩
  ((w₁₂.tell 0).tell 0, (w₁₂.tell 0).afterTell (w₁₂.afterTell g₁₂ 0) 0)

theorem laxReachable_overpaid : LaxReachable overpaid.1 overpaid.2 := by
  have h0 : Reachable (start (Pairwise.empty 2) 2 .plain 0 : World Pairwise Unit) .empty :=
    .start _ 2 .plain 0 rfl (by decide)
  have h1 := h0.step (.openScope _ _ ⟨0⟩ .plain rfl)
  have h2 := h1.step (.spawn _ _ ⟨[0], ⟨0⟩, ()⟩ ⟨0⟩ ⟨1⟩ (by decide))
  have h3 := h2.step (.deliver _ _ ⟨some ⟨0⟩, ⟨1⟩⟩ _ rfl)
  have h4 := (LaxReachable.start h3).step (.spawnHere _ _ ⟨[1], ⟨0⟩, ()⟩ ⟨0⟩ (by decide))
  have h5 := (h4.step (.step (.tell _ _ 1 (by decide)))).step (.step (.tell _ _ 1 (by decide)))
  have h6 := h5.step (.step (.deliver _ _ ⟨some ⟨1⟩, ⟨0⟩⟩ _ rfl))
  have h7 := h6.step (.step (.spawn _ _ ⟨[0], ⟨0⟩, ()⟩ ⟨0⟩ ⟨1⟩ (by decide)))
  have h8 := h7.step (.step (.deliver _ _ ⟨some ⟨0⟩, ⟨1⟩⟩ _ rfl))
  have h9 := h8.step (.step (.spawn _ _ ⟨[2], ⟨1⟩, ()⟩ ⟨1⟩ ⟨0⟩ (by decide)))
  have h10 := h9.step (.step (.deliver _ _ ⟨some ⟨1⟩, ⟨0⟩⟩ _ rfl))
  have h11 := h10.step (.step (.spawn _ _ ⟨[2], ⟨1⟩, ()⟩ ⟨1⟩ ⟨0⟩ (by decide)))
  have h12 := h11.step (.step (.deliver _ _ ⟨some ⟨1⟩, ⟨0⟩⟩ _ rfl))
  exact (h12.step (.step (.tell _ _ 0 (by decide)))).step (.step (.tell _ _ 0 (by decide)))

/-- There the root is taken for released, and those who wait are woken, while its body goes on. A task
that the body spawns where the root lives undoes the release, and its end wakes a second time. -/
theorem release_undone : ∃ w g w' g',
    LaxReachable overpaid.1 overpaid.2 ∧ 0 ∈ overpaid.2.held ∧
    (overpaid.1.instance? 0).map (fun i => (i.isReleasable, i.wakes)) = some (true, 1) ∧
    Step overpaid.1 overpaid.2 w g ∧
    (w.instance? 0).map (fun i => (i.isReleasable, i.wakes)) = some (false, 1) ∧
    Step w g w' g' ∧
    (w'.instance? 0).map (fun i => (i.isReleasable, i.wakes)) = some (true, 2) :=
  ⟨_, _, _, _, laxReachable_overpaid, by decide, rfl,
    .spawn _ _ ⟨[0], ⟨0⟩, ()⟩ ⟨0⟩ ⟨0⟩ (by decide), rfl, .tell _ _ 0 (by decide), rfl⟩

end World

end Quiescence
