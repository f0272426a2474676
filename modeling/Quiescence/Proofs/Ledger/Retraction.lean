/-
# Spawns that are taken back keep the accounts

A task that cannot be handed over is taken back, for each of its scopes in turn.
Taken alone, one retraction says little about the accounts: what it takes back
might be any task. So the world before the spawns is compared with the one
after the retractions: instance by instance they differ by nothing (`Offset`).

* `Offset.spawn`, `Offset.unspawn`: what the operations change.
* `Consistent.offset`: worlds that differ by nothing have the same accounts.
* `Consistent.retract`: spawns followed by their retractions.
-/
import Mathlib.Algebra.BigOperators.Group.List.Basic
import Quiescence.Proofs.Ledger.Messages

namespace Quiescence

/-- Two instances are one and the same, but for `v` more tasks at each place. -/
structure Instance.Differs (i j : Instance) (v : ℕ → ℤ) : Prop where
  place : j.place = i.place
  id : j.id = i.id
  home : i.remoteId? = none → i.counters.Exact →
    j.counters.Exact ∧ j.counters.tally i.place = i.counters.tally i.place + v
  away : ∀ id, i.remoteId? = some id → j.counters.count = i.counters.count ∧
    j.counters.unreported = i.counters.unreported + v

namespace Instance.Differs

variable {i j : Instance} {v : ℕ → ℤ}

theorem refl (i : Instance) : i.Differs i 0 :=
  ⟨rfl, rfl, fun _ h => ⟨h, (add_zero _).symm⟩, fun _ _ => ⟨rfl, (add_zero _).symm⟩⟩

theorem of_home (hr : i.remoteId? = none) (hp : j.place = i.place) (hid : j.id = i.id)
    (h : i.counters.Exact →
      j.counters.Exact ∧ j.counters.tally i.place = i.counters.tally i.place + v) :
    i.Differs j v := by
  refine ⟨hp, hid, fun _ => h, fun id hx => ?_⟩
  rw [hr] at hx
  cases hx

theorem of_away {id : GlobalId} (hr : i.remoteId? = some id) (hp : j.place = i.place)
    (hid : j.id = i.id) (hc : j.counters.count = i.counters.count)
    (hu : j.counters.unreported = i.counters.unreported + v) : i.Differs j v := by
  refine ⟨hp, hid, fun hx => ?_, fun _ _ => ⟨hc, hu⟩⟩
  rw [hr] at hx
  cases hx

theorem remoteId? (h : i.Differs j v) : j.remoteId? = i.remoteId? := remoteId?_congr h.place h.id

theorem trans {k : Instance} {u : ℕ → ℤ} (h : i.Differs j v) (h' : j.Differs k u) :
    i.Differs k (v + u) where
  place := h'.place.trans h.place
  id := h'.id.trans h.id
  home := fun hr hx => by
    obtain ⟨h1, h2⟩ := h.home hr hx
    obtain ⟨h3, h4⟩ := h'.home (h.remoteId?.trans hr) h1
    rw [h.place, h2, add_assoc] at h4
    exact ⟨h3, h4⟩
  away := fun id hr => by
    obtain ⟨h1, h2⟩ := h.away id hr
    obtain ⟨h3, h4⟩ := h'.away id (h.remoteId?.trans hr)
    exact ⟨h3.trans h1, by rw [h4, h2, add_assoc]⟩

end Instance.Differs

namespace World

section Offsets

variable {ν : Type → Type} {β : Type} {w w' : World ν β} {r s t : Serial} {i j : Instance}
  {p target : PlaceId} {id : GlobalId} {fs : List Serial}

/-- The second world has the instances of the first, but for `d` more tasks at each. -/
structure Offset (w w' : World ν β) (d : Serial → ℕ → ℤ) : Prop where
  net : w'.net = w.net
  tables : w'.table? = w.table?
  absent : ∀ s, w.instance? s = none → w'.instance? s = none
  present : ∀ s i, w.instance? s = some i → ∃ j, w'.instance? s = some j ∧ i.Differs j (d s)

namespace Offset

variable {d : Serial → ℕ → ℤ}

theorem refl (w : World ν β) : Offset w w 0 :=
  ⟨rfl, rfl, fun _ h => h, fun _ i h => ⟨i, h, .refl i⟩⟩

theorem of_alike (h : Alike w w') : Offset w w' 0 :=
  ⟨h.net, h.tables, fun s hs => by rw [h.instance?, hs],
    fun s i hi => ⟨i, by rw [h.instance?, hi], .refl i⟩⟩

theorem bound? (h : Offset w w' d) : w'.bound? = w.bound? := by
  funext q id
  rw [bound?_eq, bound?_eq, h.tables]

theorem steady (h : Offset w w' d) : Steady w w' := by
  refine ⟨⟨?_, ?_⟩, ?_, fun id => by rw [h.bound?]⟩
  · funext t
    cases ht : w.instance? t with
    | none => simp [World.idOf?, ht, h.absent t ht]
    | some i =>
      obtain ⟨j, hj, hd⟩ := h.present t i ht
      rw [idOf?_eq ht, idOf?_eq hj, hd.id]
  · funext t
    cases ht : w.instance? t with
    | none => simp [World.placeOf?, ht, h.absent t ht]
    | some i =>
      obtain ⟨j, hj, hd⟩ := h.present t i ht
      rw [placeOf?_eq ht, placeOf?_eq hj, hd.place]
  · funext q
    simp [nextOf?, h.tables]

/-- One instance differs by more. -/
theorem set (h : Offset w w' d) {x : Instance} (hx : w'.instance? s = some x) {v : ℕ → ℤ}
    (hd : x.Differs j v) : Offset w (w'.setInstance s j) (d + Pi.single s v) := by
  refine ⟨h.net, h.tables, fun t ht => ?_, fun t i ht => ?_⟩
  · rw [instance?_setInstance hx, if_neg, h.absent t ht]
    rintro rfl
    rw [h.absent t ht] at hx
    cases hx
  · obtain ⟨y, hy, hdy⟩ := h.present t i ht
    rw [instance?_setInstance hx]
    by_cases hts : t = s
    · subst hts
      obtain rfl : x = y := Option.some.inj (hx.symm.trans hy)
      refine ⟨j, if_pos rfl, ?_⟩
      rw [Pi.add_apply, Pi.single_eq_same]
      exact hdy.trans hd
    · refine ⟨y, by rw [if_neg hts, hy], ?_⟩
      rw [Pi.add_apply, Pi.single_eq_of_ne hts, add_zero]
      exact hdy

theorem same (h : Offset w w' d) (hs : w.instance? s = none) (v : ℕ → ℤ) :
    Offset w w' (d + Pi.single s v) := by
  refine ⟨h.net, h.tables, h.absent, fun t i ht => ?_⟩
  have hts : t ≠ s := fun hts => by
    rw [hts, hs] at ht
    cases ht
  rw [Pi.add_apply, Pi.single_eq_of_ne hts, add_zero]
  exact h.present t i ht

theorem spawn [Network ν] (h : Offset w w' d) (s : Serial) (target : PlaceId) :
    Offset w (w'.spawn s target) (d + Pi.single s (Pi.single target.index 1)) := by
  cases hs : w.instance? s with
  | none =>
    rw [show w'.spawn s target = w' by simp [World.spawn, h.absent s hs]]
    exact h.same hs _
  | some i =>
    obtain ⟨j, hj, -⟩ := h.present s i hs
    cases hr : j.remoteId? with
    | none =>
      rw [spawn_home hj hr]
      exact h.set hj (.of_home hr rfl rfl fun hx =>
        ⟨(Counters.spawnAtHome_spec hx _ _ _).1, Counters.tally_spawnAtHome hx _ _ _⟩)
    | some id =>
      rw [spawn_away hj hr]
      exact h.set hj (.of_away hr rfl rfl rfl (Counters.unreported_addAway _ _ _ _))

end Offset

/-- A spawn at `target` can be taken back: the instance, if it is at home, has slots, or `target` is
its own place. -/
def Retractable (w : World ν β) (s : Serial) (target : PlaceId) : Prop :=
  ∀ j, w.instance? s = some j → j.remoteId? = none → target = j.place ∨ j.counters.slots.isSome

theorem Offset.unspawn [Network ν] {d : Serial → ℕ → ℤ} (h : Offset w w' d) (hs : w'.Retractable s target) :
    Offset w (w'.unspawn s target) (d + Pi.single s (Pi.single target.index (-1))) := by
  cases hi : w.instance? s with
  | none =>
    rw [show w'.unspawn s target = w' by simp [World.unspawn, h.absent s hi]]
    exact h.same hi _
  | some i =>
    obtain ⟨j, hj, -⟩ := h.present s i hi
    cases hr : j.remoteId? with
    | none =>
      rw [unspawn_home hj hr]
      refine h.set hj (.of_home hr rfl rfl fun hx => ?_)
      obtain ⟨h1, h2⟩ := Counters.unspawnAtHome_spec hx j.place target w'.known (hs j hj hr)
      refine ⟨h1, funext fun k => (h2 k).trans ?_⟩
      rw [Pi.add_apply, Pi.single_apply]
      split_ifs <;> rfl
    | some id =>
      rw [unspawn_away hj hr]
      exact h.set hj (.of_away hr rfl rfl rfl (Counters.unreported_addAway _ _ _ _))

/-! ### Tasks of several scopes -/

/-- A change of one instance that keeps its place and identity, and slots where there are some. -/
theorem retractable_set (h : w.Retractable t target) (hi : w.instance? s = some i)
    (hp : j.place = i.place) (hr : j.remoteId? = i.remoteId?)
    (hs : i.remoteId? = none → i.counters.slots.isSome → j.counters.slots.isSome) :
    (w.setInstance s j).Retractable t target := fun x hx hxr => by
  rw [instance?_setInstance hi] at hx
  split_ifs at hx with hts
  · cases hx
    rw [hr] at hxr
    rw [hp]
    exact (h i (hts ▸ hi) hxr).imp_right (hs hxr)
  · exact h x hx hxr

section Batches

variable [Network ν]

theorem Retractable.spawn (h : w.Retractable t target) (s : Serial) (p : PlaceId) :
    (w.spawn s p).Retractable t target := by
  cases hi : w.instance? s with
  | none => simpa [World.spawn, hi] using h
  | some i =>
    cases hr : i.remoteId? with
    | none =>
      rw [spawn_home hi hr]
      exact retractable_set h hi rfl rfl fun _ hx => Counters.slots_spawnAtHome _ (.inr hx)
    | some id =>
      rw [spawn_away hi hr]
      exact retractable_set h hi rfl rfl fun _ _ => rfl

theorem Retractable.unspawn (h : w.Retractable t target) (s : Serial) (p : PlaceId) :
    (w.unspawn s p).Retractable t target := by
  cases hi : w.instance? s with
  | none => simpa [World.unspawn, hi] using h
  | some i =>
    cases hr : i.remoteId? with
    | none =>
      rw [unspawn_home hi hr]
      refine retractable_set h hi rfl rfl fun _ hx => ?_
      obtain ⟨slots, hslots⟩ := Option.isSome_iff_exists.mp hx
      simp [Instance.retire, Counters.unspawnAtHome, hslots, Counters.lower]
    | some id =>
      rw [unspawn_away hi hr]
      exact retractable_set h hi rfl rfl fun _ _ => rfl

/-- A spawn at another place splits the count into slots. -/
theorem retractable_spawn_self (w : World ν β) (s : Serial) (target : PlaceId) :
    (w.spawn s target).Retractable s target := fun j hj hr => by
  cases hi : w.instance? s with
  | none =>
    rw [show w.spawn s target = w by simp [World.spawn, hi], hi] at hj
    cases hj
  | some i =>
    cases hir : i.remoteId? with
    | none =>
      rw [spawn_home hi hir, instance?_setInstance hi, if_pos rfl] at hj
      cases hj
      by_cases ht : target = i.place
      · exact .inl ht
      · exact .inr (Counters.slots_spawnAtHome _ (.inl ht))
    | some id =>
      rw [spawn_away hi hir, instance?_setInstance hi, if_pos rfl] at hj
      cases hj
      exact absurd (hr.symm.trans hir) (by simp)

theorem steady_spawn (w : World ν β) (s : Serial) (target : PlaceId) :
    Steady w (w.spawn s target) := ((Offset.refl w).spawn s target).steady

/-- `x` tasks more at a place, for each of some instances. -/
def batch (fs : List Serial) (target : PlaceId) (x : ℤ) : Serial → ℕ → ℤ :=
  (fs.map fun s => Pi.single s (Pi.single target.index x)).sum

theorem batch_cons (s : Serial) (fs : List Serial) (target : PlaceId) (x : ℤ) :
    batch (s :: fs) target x = Pi.single s (Pi.single target.index x) + batch fs target x := rfl

/-- One task of a batch is taken back. -/
theorem batch_cons_neg (s : Serial) (fs : List Serial) (target : PlaceId) :
    batch (s :: fs) target 1 + Pi.single s (Pi.single target.index (-1)) = batch fs target 1 := by
  rw [batch_cons, add_right_comm, ← Pi.single_add, ← Pi.single_add, add_neg_cancel, Pi.single_zero,
    Pi.single_zero, zero_add]

theorem batch_nonneg (fs : List Serial) (target : PlaceId) (s : Serial) (k : ℕ) :
    0 ≤ batch fs target 1 s k := by
  induction fs with
  | nil => exact le_rfl
  | cons t fs ih =>
    rw [batch_cons, Pi.add_apply, Pi.add_apply]
    refine add_nonneg ?_ ih
    by_cases hst : s = t
    · subst hst
      rw [Pi.single_eq_same]
      exact single_nonneg _ _
    · rw [Pi.single_eq_of_ne hst]
      rfl

theorem batch_neg (fs : List Serial) (target : PlaceId) :
    batch fs target 1 + batch fs target (-1) = 0 := by
  induction fs with
  | nil => rfl
  | cons s fs ih =>
    rw [batch_cons, batch_cons, add_add_add_comm, ih, ← Pi.single_add, ← Pi.single_add, add_neg_cancel, Pi.single_zero,
      Pi.single_zero, add_zero]

theorem Offset.spawnAll {d : Serial → ℕ → ℤ} (h : Offset w w' d) (fs : List Serial)
    (target : PlaceId) :
    Offset w (w'.spawnAll fs target) (d + batch fs target 1) := by
  induction fs generalizing w' d with
  | nil => simpa [World.spawnAll, batch] using h
  | cons s fs ih =>
    have := ih (h.spawn s target)
    rwa [add_assoc] at this

theorem Offset.unspawnAll {d : Serial → ℕ → ℤ} (h : Offset w w' d)
    (hs : ∀ s ∈ fs, w'.Retractable s target) :
    Offset w (w'.unspawnAll fs target) (d + batch fs target (-1)) := by
  induction fs generalizing w' d with
  | nil => simpa [World.unspawnAll, batch] using h
  | cons s fs ih =>
    have := ih (h.unspawn (hs s (List.mem_cons_self ..)))
      fun t ht => (hs t (List.mem_cons_of_mem _ ht)).unspawn s target
    rwa [add_assoc] at this

theorem Retractable.spawnAll (h : w.Retractable t target) (fs : List Serial) (p : PlaceId) :
    (w.spawnAll fs p).Retractable t target := by
  induction fs generalizing w with
  | nil => exact h
  | cons s fs ih => exact ih (h.spawn s p)

theorem retractable_spawnAll (w : World ν β) (fs : List Serial) (target : PlaceId) :
    ∀ s ∈ fs, (w.spawnAll fs target).Retractable s target := by
  induction fs generalizing w with
  | nil => simp
  | cons t fs ih =>
    intro s hs
    rcases List.mem_cons.mp hs with rfl | hs
    · exact (retractable_spawn_self w s target).spawnAll fs target
    · exact ih (w.spawn t target) s hs

theorem Tidy.spawnAll {held : Multiset Serial} (h : Tidy w held) (fs : List Serial)
    (target : PlaceId) : Tidy (w.spawnAll fs target) held := by
  induction fs generalizing w with
  | nil => exact h
  | cons s fs ih => exact ih (h.spawn s target)

theorem Tidy.unspawnAll {held : Multiset Serial} (h : Tidy w held) (fs : List Serial)
    (target : PlaceId) : Tidy (w.unspawnAll fs target) held := by
  induction fs generalizing w with
  | nil => exact h
  | cons s fs ih => exact ih (h.unspawn s target)

end Batches

/-! ### Worlds that differ by nothing -/

theorem Offset.back (h : Offset w w' 0) (hj : w'.instance? s = some j) :
    ∃ i, w.instance? s = some i ∧ i.Differs j 0 := by
  cases hi : w.instance? s with
  | none =>
    rw [h.absent s hi] at hj
    cases hj
  | some i =>
    obtain ⟨x, hx, hd⟩ := h.present s i hi
    obtain rfl : j = x := Option.some.inj (hj.symm.trans hx)
    exact ⟨i, rfl, hd⟩

theorem Offset.isSome {d : Serial → ℕ → ℤ} (h : Offset w w' d) (hs : (w.instance? s).isSome) :
    (w'.instance? s).isSome := by
  obtain ⟨i, hi⟩ := Option.isSome_iff_exists.mp hs
  obtain ⟨j, hj, -⟩ := h.present s i hi
  rw [hj]
  rfl

end Offsets

section Accounts

variable {β : Type} {w w' : World Pairwise β} {g : Ledger β} {limbo : Multiset (Serial × PlaceId)}
  {arrived : List (Packet (Message β))} {s : Serial}

/-- The same episodes go on. -/
theorem Offset.current (h : Offset w w' 0) (q : PlaceId) (id? : Option GlobalId) :
    w'.current q id? = w.current q id? := by
  cases id? with
  | none => rfl
  | some id =>
    simp only [World.current, h.bound?]
    cases w.bound? q id with
    | none => rfl
    | some b =>
      cases b with
      | foreign => rfl
      | scope s =>
        cases hi : w.instance? s with
        | none => simp only [hi, h.absent s hi]
        | some i =>
          obtain ⟨j, hj, hd⟩ := h.present s i hi
          simp only [hi, hj, hd.remoteId?]
          by_cases hr : i.remoteId? = some id
          · obtain ⟨h1, h2⟩ := hd.away id hr
            rw [h1, h2, Pi.zero_apply, add_zero]
          · simp [hr]

theorem Consistent.offset (h : Consistent w g limbo arrived) (ho : Offset w w' 0)
    (htidy : Tidy w' g.held) : Consistent w' g limbo arrived := by
  have hst := ho.steady
  have hout : w'.outstanding g = w.outstanding g := by
    funext r k
    unfold outstanding
    rw [hst.unitsAt, hst.tasksAt]
  have hepi : w'.episodes g = w.episodes g := by
    funext q id?
    unfold episodes
    rw [ho.current, ho.net]
  have hhome : ∀ r x, w'.instance? r = some x → x.remoteId? = none → ∃ i, w.instance? r = some i ∧
      i.remoteId? = none ∧ x.place = i.place ∧ x.id = i.id ∧ x.counters.Exact ∧
      x.counters.tally x.place = i.counters.tally i.place := fun r x hx hr => by
    obtain ⟨i, hi, hd⟩ := ho.back hx
    have hir := hd.remoteId?.symm.trans hr
    obtain ⟨h1, h2⟩ := hd.home hir (h.exact r i hi hir)
    exact ⟨i, hi, hir, hd.place, hd.id, h1, by rw [hd.place, h2, add_zero]⟩
  refine
    { tidy := htidy
      named := hst.named h.named (by rw [ho.net]; exact fun _ => .inl)
      ended := fun t ht => ho.isSome (h.ended t ht)
      begun := fun u hu => ho.isSome (h.begun u hu)
      exact := fun r x hx hr => ?_
      idle := fun t x id hx hr ht => ?_
      sound := fun r x hx hr => ?_
      whereabouts := fun r x k hx hr => ?_
      closed := fun r hr => ?_
      lost := by rw [ho.net]; exact h.lost }
  · obtain ⟨-, -, -, -, -, he, -⟩ := hhome r x hx hr
    exact he
  · obtain ⟨i, hi, hd⟩ := ho.back hx
    have hir := hd.remoteId?.symm.trans hr
    rw [(hd.away id hir).2, h.idle t i id hi hir ht, add_zero]
  · obtain ⟨i, hi, hir, hp, hid, -, ht⟩ := hhome r x hx hr
    refine (h.sound r i hi hir).congr hp ht ?_ (congrFun hout r)
    funext q
    show w'.episodes g q x.id = w.episodes g q i.id
    rw [hepi, hid]
  · obtain ⟨i, hi, hir, -, hid, -, -⟩ := hhome r x hx hr
    rw [hst.unitsAt, hst.tasksAt, ho.net, hid]
    exact h.whereabouts r i k hi hir
  · obtain ⟨i, hi, hir, hz⟩ := h.closed r hr
    obtain ⟨j, hj, hd⟩ := ho.present r i hi
    rw [Pi.zero_apply] at hd
    refine ⟨j, hj, hd.remoteId?.trans hir, fun k => ?_⟩
    rw [hd.place, (hd.home hir (h.exact r i hi hir)).2, add_zero]
    exact hz k

/-- A task that was counted for another place and could not be handed over is taken back. -/
theorem Consistent.retract (h : Consistent w g limbo arrived) (fs : List Serial) (target : PlaceId) :
    Consistent ((w.spawnAll fs target).unspawnAll fs target) g limbo arrived := by
  have ho := ((Offset.refl w).spawnAll fs target).unspawnAll (retractable_spawnAll w fs target)
  rw [zero_add, batch_neg] at ho
  exact h.offset ho ((h.tidy.spawnAll fs target).unspawnAll fs target)

end Accounts

end World

end Quiescence
