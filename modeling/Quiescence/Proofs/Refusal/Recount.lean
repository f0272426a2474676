/-
# Spawns that are counted and taken back

When a task is refused, each instance that it is registered with has counted it
and takes it back. Two instances of one scope, or one that is listed twice, are
counted in turn; slots come to be on the way, and the count passes through
values that it never has at rest. In the end every tally is what it was.

* `Recounted`, `Recounts`: spawns and retractions change what is counted and
  nothing else.
* `woken_unspawnAll`: when they wake those who wait for a release.
* `Restored`: the instance counts as it did.
* `Recounts.restored`: so does every instance, when all that was counted is
  taken back.
-/
import Quiescence.Proofs.Tally.History
import Quiescence.Proofs.Wakes

namespace Quiescence

namespace Counters

/-- Slots that have grown and hold what they held have grown by zeros. -/
theorem eq_append_replicate {slots slots' : List Int} (hlen : slots.length ≤ slots'.length)
    (h : slot slots' = slot slots) :
    slots' = slots ++ List.replicate (slots'.length - slots.length) 0 := by
  refine List.ext_getElem (by simp [hlen]) fun k hk _ => ?_
  have hget : slot slots' k = slots'[k] := by rw [slot_eq, List.getElem?_eq_getElem hk]; rfl
  rw [← hget, h, ← slot_append_replicate slots (slots'.length - slots.length), slot_eq,
    List.getElem?_eq_getElem]
  rfl

theorem length_perform {c : Counters} {slots : List Int} (here : PlaceId) (call : Call)
    (hs : c.slots = some slots) :
    ∃ slots', (c.perform here call).2.slots = some slots' ∧ slots.length ≤ slots'.length := by
  obtain ⟨hsome, hlen⟩ := slots_perform c here call
  rw [hs] at hsome
  obtain ⟨slots', hs'⟩ := Option.isSome_iff_exists.mp hsome
  exact ⟨slots', hs', (hlen slots' hs').1 slots hs⟩

theorem length_addAway {c : Counters} {slots : List Int} (k known : ℕ) (d : ℤ)
    (hs : c.slots = some slots) :
    ∃ slots', (c.addAway k known d).slots = some slots' ∧ slots.length ≤ slots'.length := by
  refine ⟨_, rfl, ?_⟩
  rw [List.length_set, slotsAway, hs]
  exact length_extend ..

end Counters

namespace Instance

/-- The same instance, that may count otherwise, and have woken those who wait. -/
structure Recounted (i j : Instance) : Prop where
  place : j.place = i.place
  kind : j.kind = i.kind
  id : j.id = i.id
  exceptions : j.exceptions = i.exceptions
  bound : j.bound = i.bound
  slots : ∀ slots, i.counters.slots = some slots →
    ∃ slots', j.counters.slots = some slots' ∧ slots.length ≤ slots'.length
  wakes : i.wakes ≤ j.wakes
  away : i.remoteId? ≠ none → j.wakes = i.wakes

namespace Recounted

variable {i j k : Instance}

theorem refl (i : Instance) : i.Recounted i :=
  ⟨rfl, rfl, rfl, rfl, rfl, fun slots h => ⟨slots, h, le_rfl⟩, le_rfl, fun _ => rfl⟩

theorem trans (h : i.Recounted j) (h' : j.Recounted k) : i.Recounted k where
  place := h'.place.trans h.place
  kind := h'.kind.trans h.kind
  id := h'.id.trans h.id
  exceptions := h'.exceptions.trans h.exceptions
  bound := h'.bound.trans h.bound
  slots := fun slots hs => by
    obtain ⟨slots', hs', hle⟩ := h.slots slots hs
    obtain ⟨slots'', hs'', hle'⟩ := h'.slots slots' hs'
    exact ⟨slots'', hs'', hle.trans hle'⟩
  wakes := h.wakes.trans h'.wakes
  away := fun hr => by
    have hr' : j.remoteId? ≠ none := by rwa [remoteId?_congr h.place h.id]
    exact (h'.away hr').trans (h.away hr)

/-- The counters change, and nobody is woken. -/
theorem of_counters {c : Counters}
    (hs : ∀ slots, i.counters.slots = some slots →
      ∃ slots', c.slots = some slots' ∧ slots.length ≤ slots'.length) :
    i.Recounted { i with counters := c } :=
  ⟨rfl, rfl, rfl, rfl, rfl, hs, le_rfl, fun _ => rfl⟩

theorem of_retire {c : Counters} (released : Bool) (hr : i.remoteId? = none)
    (hs : ∀ slots, i.counters.slots = some slots →
      ∃ slots', c.slots = some slots' ∧ slots.length ≤ slots'.length) :
    i.Recounted (i.retire released c) := by
  refine ⟨rfl, rfl, rfl, rfl, rfl, hs, ?_, fun hn => absurd hr hn⟩
  unfold retire
  dsimp only
  split_ifs <;> omega

end Recounted

/-- An instance that counts as it did. It may have got an identity, and slots that hold what it
counted before. Those who wait may have been woken, if no place had a task outstanding; where ends are
heard of before the spawns they belong to, a place has less than none. -/
structure Restored (i j : Instance) : Prop extends i.Becomes j where
  kind : j.kind = i.kind
  exceptions : j.exceptions = i.exceptions
  bound : j.bound = i.bound
  releasable : j.isReleasable = i.isReleasable
  home : i.remoteId? = none →
    j.counters.Exact ∧ j.counters.tally i.place = i.counters.tally i.place
  away : i.remoteId? ≠ none → j.counters.count = i.counters.count ∧
    j.counters.unreported = i.counters.unreported ∧ j.wakes = i.wakes
  slots : ∀ slots, i.counters.slots = some slots →
    ∃ n, j.counters = ⟨i.counters.count, some (slots ++ List.replicate n 0)⟩
  wakes : i.wakes ≤ j.wakes
  woken : j.wakes ≠ i.wakes → ∀ k, i.counters.tally i.place k ≤ 0

theorem Recounted.restored {i j : Instance} (h : i.Recounted j) (hd : i.Differs j 0)
    (hx : i.remoteId? = none → i.counters.Exact)
    (hw : i.remoteId? = none → j.wakes ≠ i.wakes → ∀ k, i.counters.tally i.place k ≤ 0) :
    i.Restored j := by
  have hr := hd.remoteId?
  refine
    { toBecomes := .of_same h.place h.id
      kind := h.kind
      exceptions := h.exceptions
      bound := h.bound
      releasable := ?_
      home := fun hn => (hd.home hn (hx hn)).imp_right fun ht => ht.trans (add_zero _)
      away := fun hn => ?_
      slots := fun slots hs => ?_
      wakes := h.wakes
      woken := fun hne => ?_ }
  · cases hi : i.remoteId? with
    | none =>
      obtain ⟨hjx, ht⟩ := hd.home hi (hx hi)
      rw [Bool.eq_iff_iff, isReleasable, isReleasable, Counters.isReleased_iff hjx i.place,
        Counters.isReleased_iff (hx hi) i.place, ht, add_zero]
    | some id =>
      obtain ⟨hc, -⟩ := hd.away id hi
      rw [isReleasable, isReleasable, Counters.isReleased, Counters.isReleased, hc]
  · obtain ⟨id, hid⟩ := Option.ne_none_iff_exists'.mp hn
    obtain ⟨hc, hu⟩ := hd.away id hid
    exact ⟨hc, by rw [hu, add_zero], h.away hn⟩
  · obtain ⟨slots', hs', hlen⟩ := h.slots slots hs
    -- the slots hold the same, and the count is the same too
    have hboth : j.counters.count = i.counters.count ∧ Counters.slot slots' = Counters.slot slots := by
      cases hi : i.remoteId? with
      | none =>
        obtain ⟨hjx, ht⟩ := hd.home hi (hx hi)
        have hslot : Counters.slot slots' = Counters.slot slots := by
          funext k
          simpa [Counters.tally, hs, hs'] using congrFun ht k
        refine ⟨?_, hslot⟩
        rw [hjx slots' hs', hx hi slots hs, Counters.eq_append_replicate hlen hslot,
          Counters.occupied_append_replicate]
      | some id =>
        obtain ⟨hc, hu⟩ := hd.away id hi
        refine ⟨hc, funext fun k => ?_⟩
        simpa [Counters.unreported, hs, hs'] using congrFun hu k
    obtain ⟨hc, hslot⟩ := hboth
    refine ⟨slots'.length - slots.length, ?_⟩
    rw [← Counters.eq_append_replicate hlen hslot, ← hs', ← hc]
  · cases hi : i.remoteId? with
    | none => exact hw hi hne
    | some id => exact absurd (h.away (by rw [hi]; exact Option.some_ne_none _)) hne

/-- An instance at home may get an identity before. -/
theorem Restored.of_named {i j : Instance} {id : GlobalId} (hid : i.id = none)
    (hhome : id.home = i.place) (h : Restored { i with id := some id } j) : i.Restored j := by
  have hr : i.remoteId? = none := by simp [remoteId?, hid]
  have hr' : ({ i with id := some id } : Instance).remoteId? = none :=
    remoteId?_eq_none.mpr fun id' hx => by cases hx; exact hhome
  exact
    { place := h.place
      id := fun id' hx => by rw [hid] at hx; cases hx
      remoteId := h.remoteId.trans (hr'.trans hr.symm)
      kind := h.kind
      exceptions := h.exceptions
      bound := h.bound
      releasable := h.releasable
      home := fun _ => h.home hr'
      away := fun hn => absurd hr hn
      slots := h.slots
      wakes := h.wakes
      woken := h.woken }

end Instance

namespace World

variable {ν : Type → Type} {β : Type} {w u : World ν β} {s t : Serial} {i j x y : Instance}
  {target : PlaceId} {fs : List Serial}

/-- Some instances may count otherwise, and nothing else has changed. -/
structure Recounts (fs : List Serial) (w w' : World ν β) : Prop where
  net : w'.net = w.net
  jobs : w'.jobs = w.jobs
  sites : w'.sites = w.sites
  others : ∀ s ∉ fs, w'.instance? s = w.instance? s
  absent : ∀ s, w.instance? s = none → w'.instance? s = none
  present : ∀ s i, w.instance? s = some i → ∃ j, w'.instance? s = some j ∧ i.Recounted j

namespace Recounts

theorem refl (fs : List Serial) (w : World ν β) : Recounts fs w w :=
  ⟨rfl, rfl, rfl, fun _ _ => rfl, fun _ h => h, fun _ i hi => ⟨i, hi, .refl i⟩⟩

theorem idOf? (h : Recounts fs w u) : u.idOf? = w.idOf? := by
  funext s
  cases hi : w.instance? s with
  | none => rw [World.idOf?, World.idOf?, hi, h.absent s hi]
  | some i =>
    obtain ⟨j, hj, hij⟩ := h.present s i hi
    rw [idOf?_eq hi, idOf?_eq hj, hij.id]

theorem tables (h : Recounts fs w u) : u.table? = w.table? := by
  funext q
  unfold table? site?
  rw [h.sites]

theorem bound? (h : Recounts fs w u) : u.bound? = w.bound? := by
  funext q id
  rw [bound?_eq, bound?_eq, h.tables]

/-- One of them counts once more. -/
theorem set (h : Recounts fs w u) (hs : s ∈ fs) (hx : u.instance? s = some x) (hj : x.Recounted j) :
    Recounts fs w (u.setInstance s j) := by
  refine ⟨h.net, h.jobs, h.sites, fun t ht => ?_, fun t ht => ?_, fun t i hi => ?_⟩
  · rw [instance?_setInstance hx, if_neg fun hts : t = s => ht (hts ▸ hs), h.others t ht]
  · rw [instance?_setInstance hx, if_neg, h.absent t ht]
    rintro rfl
    rw [h.absent t ht] at hx
    cases hx
  · obtain ⟨y, hy, hiy⟩ := h.present t i hi
    rw [instance?_setInstance hx]
    split_ifs with hts
    · subst hts
      obtain rfl := Option.some.inj (hx.symm.trans hy)
      exact ⟨j, rfl, hiy.trans hj⟩
    · exact ⟨y, hy, hiy⟩

variable [Network ν]

theorem spawn (h : Recounts fs w u) (hs : s ∈ fs) (target : PlaceId) :
    Recounts fs w (u.spawn s target) := by
  cases hx : u.instance? s with
  | none => simpa [World.spawn, hx] using h
  | some x =>
    cases hr : x.remoteId? with
    | none =>
      rw [spawn_home hx hr]
      exact h.set hs hx (.of_counters fun _ =>
        Counters.length_perform x.place ⟨.spawn target, u.known⟩)
    | some id =>
      rw [spawn_away hx hr]
      exact h.set hs hx (.of_counters fun _ hs => Counters.length_addAway _ _ _ hs)

theorem unspawn (h : Recounts fs w u) (hs : s ∈ fs) (target : PlaceId) :
    Recounts fs w (u.unspawn s target) := by
  cases hx : u.instance? s with
  | none => simpa [World.unspawn, hx] using h
  | some x =>
    cases hr : x.remoteId? with
    | none =>
      rw [unspawn_home hx hr]
      exact h.set hs hx (.of_retire _ hr fun _ =>
        Counters.length_perform x.place ⟨.unspawn target, u.known⟩)
    | some id =>
      rw [unspawn_away hx hr]
      exact h.set hs hx (.of_counters fun _ hs => Counters.length_addAway _ _ _ hs)

theorem spawnAll (h : Recounts fs w u) (target : PlaceId) : Recounts fs w (u.spawnAll fs target) :=
  List.foldlRecOn fs _ h fun _ h _ hs => h.spawn hs target

theorem unspawnAll (h : Recounts fs w u) (target : PlaceId) :
    Recounts fs w (u.unspawnAll fs target) :=
  List.foldlRecOn fs _ h fun _ h _ hs => h.unspawn hs target

end Recounts

section Waking

variable [Network ν]

theorem wakes_spawn (w : World ν β) (t : Serial) (target : PlaceId) (s : Serial) :
    ((w.spawn t target).instance? s).map (·.wakes) = (w.instance? s).map (·.wakes) := by
  cases hi : w.instance? t with
  | none => simp [World.spawn, hi]
  | some i =>
    unfold World.spawn
    rw [hi]
    dsimp only
    split <;>
    · rw [instance?_setInstance hi]
      split_ifs with hst
      · rw [hst, hi]
        rfl
      · rfl

theorem wakes_spawnAll (w : World ν β) (fs : List Serial) (target : PlaceId) (s : Serial) :
    ((w.spawnAll fs target).instance? s).map (·.wakes) = (w.instance? s).map (·.wakes) := by
  induction fs generalizing w with
  | nil => rfl
  | cons t fs ih => exact (ih (w.spawn t target)).trans (wakes_spawn w t target s)

/-- A retraction wakes those who wait for an instance that it releases. -/
theorem wakes_unspawn (hx : u.instance? s = some x) (hy : (u.unspawn t target).instance? s = some y) :
    y.wakes = x.wakes ∨ y.isReleasable = true := by
  by_cases hst : s = t
  · subst hst
    cases hr : x.remoteId? with
    | none =>
      rw [unspawn_home hx hr, instance?_setInstance hx, if_pos rfl] at hy
      cases hy
      cases hrel : (x.counters.unspawnAtHome target u.known).1.released with
      | false => exact .inl rfl
      | true => exact .inr ((Counters.released_unspawnAtHome ..).symm.trans hrel)
    | some id =>
      rw [unspawn_away hx hr, instance?_setInstance hx, if_pos rfl] at hy
      cases hy
      exact .inl rfl
  · have hrc := (Recounts.refl [t] u).unspawn (List.mem_singleton_self t) target
    rw [hrc.others s (by simpa using hst), hx] at hy
    cases hy
    exact .inl rfl

/-- While spawns are taken back, those who wait are woken only if no place has tasks outstanding
besides. -/
theorem woken_unspawnAll (ho : Offset w u (batch fs target 1))
    (hre : ∀ t ∈ fs, u.Retractable t target) (hi : w.instance? s = some i)
    (hr : i.remoteId? = none) (hex : i.counters.Exact) (hx : u.instance? s = some x)
    (hy : (u.unspawnAll fs target).instance? s = some y) (hne : y.wakes ≠ x.wakes) (k : ℕ) :
    i.counters.tally i.place k ≤ 0 := by
  induction fs generalizing u x with
  | nil =>
    rw [show u.unspawnAll [] target = u from rfl, hx] at hy
    cases hy
    exact absurd rfl hne
  | cons t fs ih =>
    have ho' := ho.unspawn (hre t (List.mem_cons_self ..))
    rw [batch_cons_neg] at ho'
    obtain ⟨z, hz, hd⟩ := ho'.present s i hi
    by_cases hyz : y.wakes = z.wakes
    · -- this retraction has released the instance, while the others were still counted
      rcases wakes_unspawn hx hz with hzx | hrel
      · exact absurd (hyz.trans hzx) hne
      · obtain ⟨hzx, ht⟩ := hd.home hr hex
        have hzero := (Counters.isReleased_iff hzx i.place).mp hrel k
        rw [ht, Pi.add_apply] at hzero
        have := batch_nonneg fs target s k
        omega
    · exact ih ho' (fun r hr' => (hre r (List.mem_cons_of_mem _ hr')).unspawn t target) hz hy hyz

/-- Instances that count a task and take it back count as they did. -/
theorem restored_retract (w : World ν β) (fs : List Serial) (target : PlaceId)
    (hi : w.instance? s = some i) (hex : i.remoteId? = none → i.counters.Exact) :
    ∃ j, ((w.spawnAll fs target).unspawnAll fs target).instance? s = some j ∧ i.Restored j ∧
      j.id = i.id := by
  have ho := (Offset.refl w).spawnAll fs target
  rw [zero_add] at ho
  have hre := retractable_spawnAll w fs target
  have ho' := ho.unspawnAll hre
  rw [batch_neg] at ho'
  obtain ⟨j, hj, hij⟩ := (((Recounts.refl fs w).spawnAll target).unspawnAll target).present s i hi
  obtain ⟨z, hz, hd⟩ := ho'.present s i hi
  obtain rfl := Option.some.inj (hj.symm.trans hz)
  refine ⟨j, hj, hij.restored hd hex fun hr hne => ?_, hij.id⟩
  obtain ⟨x, hx, -⟩ := ho.present s i hi
  have hw := wakes_spawnAll w fs target s
  rw [hx, hi] at hw
  have hwx : x.wakes = i.wakes := Option.some.inj hw
  exact woken_unspawnAll ho hre hi hr (hex hr) hx hj (hwx ▸ hne)

end Waking

end World

end Quiescence
