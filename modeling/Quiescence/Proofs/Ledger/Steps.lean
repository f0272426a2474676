/-
# The operations keep the accounts

Each operation on one instance, with the entry it makes in the ledger, keeps a
consistent world consistent.
-/
import Quiescence.Proofs.Ledger

namespace Quiescence

namespace World

variable {β : Type} {w w' : World Pairwise β} {g g' : Ledger β}
  {limbo limbo' : Multiset (Serial × PlaceId)} {arrived arrived' : List (Packet (Message β))}
  {r s : Serial} {i j : Instance} {p : PlaceId} {id : GlobalId}

/-! ### Changes of one instance -/

/-- One instance changes. Of the others there is nothing to show but that the accounts, and the
whereabouts of the tasks, are still right. -/
theorem Consistent.change (h : Consistent w g limbo arrived)
    (hinst : ∀ t, w'.instance? t = if t = s then some j else w.instance? t)
    (htidy : Tidy w' g'.held)
    (hnamed : Named w' g'.left (w'.net.packets ++ g'.lost ++ g'.astray ++ arrived'))
    (hended : ∀ t ∈ g'.told, t ∈ g.told ∨ t = s)
    (hbegun : ∀ u ∈ g'.spawned + limbo', u ∈ g.spawned + limbo ∨ u.1 = s)
    (hheld : ∀ t, t ≠ s → t ∈ g.held → t ∈ g'.held)
    (hexact : j.remoteId? = none → j.counters.Exact)
    (hidle : ∀ id, j.remoteId? = some id → s ∉ g'.held → j.counters.unreported = 0)
    (hsound : ∀ r x, w'.instance? r = some x → x.remoteId? = none → (w'.account g' r x).Sound)
    (hwhere : ∀ r x k, w'.instance? r = some x → x.remoteId? = none →
      w'.unitsAt r k g'.spawned = w'.tasksAt r k g'.told + w'.tasksAt r k g'.held +
        carriedAt x.id k (w'.net.packets ++ g'.astray ++ arrived') + w'.unitsAt r k limbo')
    (hleft : ∀ r ∈ g'.left, r ≠ s → r ∈ g.left)
    (hclosed : s ∈ g'.left → j.remoteId? = none ∧ ∀ k, j.counters.tally j.place k = 0)
    (hlost : ∀ pk ∈ g'.lost, w'.net.Refuses pk.dest) : Consistent w' g' limbo' arrived' := by
  have hsome : ∀ t, (w.instance? t).isSome ∨ t = s → (w'.instance? t).isSome := by
    intro t ht
    rw [hinst]
    split_ifs with hts
    · rfl
    · exact ht.resolve_right hts
  refine
    { tidy := htidy
      named := hnamed
      ended := fun t ht => hsome t ((hended t ht).imp_left (h.ended t))
      begun := fun u hu => hsome u.1 ((hbegun u hu).imp_left (h.begun u))
      exact := fun r x hx hr => ?_
      idle := fun t x id hx hr ht => ?_
      sound := hsound
      whereabouts := hwhere
      closed := fun r hr => ?_
      lost := hlost }
  · rw [hinst] at hx
    split_ifs at hx with hrs
    · cases hx
      exact hexact hr
    · exact h.exact r x hx hr
  · rw [hinst] at hx
    split_ifs at hx with hts
    · cases hx
      exact hidle id hr (hts ▸ ht)
    · exact h.idle t x id hx hr fun hm => ht (hheld t hts hm)
  · by_cases hrs : r = s
    · exact ⟨j, by rw [hinst, if_pos hrs], hclosed (hrs ▸ hr)⟩
    · obtain ⟨x, hx, hxr, hz⟩ := h.closed r (hleft r hr hrs)
      exact ⟨x, by rw [hinst, if_neg hrs, hx], hxr, hz⟩

/-- A root and an instance of its scope that is another: that one is away from home. -/
theorem Consistent.away_of_akin (h : Consistent w g limbo arrived) {x : Instance}
    (hx : w.instance? r = some x) (hr : x.remoteId? = none) (hi : w.instance? s = some i)
    (hne : r ≠ s) (hak : w.Akin r s) : ∃ id, x.id = some id ∧ i.remoteId? = some id := by
  rcases hak with rfl | ⟨hs, he⟩
  · exact absurd rfl hne
  · rw [idOf?_eq hi] at hs
    obtain ⟨id, hid⟩ := Option.isSome_iff_exists.mp hs
    have hxid : x.id = some id := by
      rw [← idOf?_eq hx, ← he, idOf?_eq hi, hid]
    refine ⟨id, hxid, Instance.remoteId?_eq_some.mpr ⟨hid, fun hhome => hne ?_⟩⟩
    refine h.named.unique r s id (by rw [idOf?_eq hx, hxid]) (by rw [idOf?_eq hi, hid]) ?_ ?_
    · rw [placeOf?_eq hx, ← Instance.remoteId?_eq_none.mp hr id hxid]
    · rw [placeOf?_eq hi, hhome]

/-- Something happens at an instance: `v` is what it adds to the tasks of each place. At home it adds
that to the tallies, elsewhere to the last episode of the place. -/
theorem Consistent.sound_shift (h : Consistent w g limbo arrived) (hi : w.instance? s = some i)
    (hinst : ∀ t, w'.instance? t = if t = s then some j else w.instance? t)
    (hp : j.place = i.place) (hid : j.id = i.id) (v : ℕ → ℤ)
    (hv : ∀ k, k ≠ i.place.index → 0 ≤ v k)
    (hhome : i.remoteId? = none → j.counters.tally i.place = i.counters.tally i.place + v)
    (hsame : ∀ q id?, (q = i.place → id? = i.id → i.remoteId? = none) →
      w'.episodes g' q id? = w.episodes g q id?)
    (haway : ∀ id, i.remoteId? = some id → ∃ es u,
      w.episodes g i.place (some id) = es ++ [⟨i.place, u⟩] ∧
      w'.episodes g' i.place (some id) = es ++ [⟨i.place, u + v⟩])
    (hout : ∀ r k, w'.outstanding g' r k = w.outstanding g r k + if w.Akin r s then v k else 0) :
    ∀ r x, w'.instance? r = some x → x.remoteId? = none → (w'.account g' r x).Sound := by
  intro r x hx hr
  have hj : w'.instance? s = some j := by rw [hinst, if_pos rfl]
  have hjr : j.remoteId? = i.remoteId? := Instance.remoteId?_congr hp hid
  by_cases hrs : r = s
  · subst hrs
    obtain rfl : j = x := Option.some.inj (hj.symm.trans hx)
    have hir : i.remoteId? = none := hjr.symm.trans hr
    refine (h.sound r i hi hir).atHome v hv hp ?_ ?_ ?_
    · show j.counters.tally j.place = _
      rw [hp]
      exact hhome hir
    · funext q
      show w'.episodes g' q j.id = w.episodes g q i.id
      rw [hid]
      exact hsame q i.id fun _ _ => hir
    · funext k
      show w'.outstanding g' r k = _
      rw [hout, if_pos (.refl w r)]
      rfl
  · have hx0 : w.instance? r = some x := by rwa [hinst, if_neg hrs] at hx
    by_cases hak : w.Akin r s
    · obtain ⟨id, hxid, hir⟩ := h.away_of_akin hx0 hr hi hrs hak
      obtain ⟨es, u, he, he'⟩ := haway id hir
      refine (h.sound r x hx0 hr).away v hv (hxid ▸ he : w.episodes g i.place x.id = _) rfl rfl
        (hxid ▸ he' : w'.episodes g' i.place x.id = _) (fun q hq => ?_) ?_
      · exact hsame q x.id fun hqp => absurd hqp hq
      · funext k
        show w'.outstanding g' r k = _
        rw [hout, if_pos hak]
        rfl
    · refine (h.sound r x hx0 hr).congr rfl rfl ?_ ?_
      · funext q
        refine hsame q x.id fun _ hxid => ?_
        by_contra hne
        obtain ⟨id, hir⟩ := Option.ne_none_iff_exists'.mp hne
        have hiid := (Instance.remoteId?_eq_some.mp hir).1
        exact hak ((akin_iff (by rw [idOf?_eq hi, hiid])).mpr (by rw [idOf?_eq hx0, hxid, hiid]))
      · funext k
        show w'.outstanding g' r k = _
        rw [hout, if_neg hak, add_zero]
        rfl

/-- An instance that holds a task changes by `v`, with the entries in the ledger that this takes. -/
theorem Consistent.shift (h : Consistent w g limbo arrived) (hi : w.instance? s = some i)
    (hs : s ∈ g.held) (hinst : ∀ t, w'.instance? t = if t = s then some j else w.instance? t)
    (hst : Steady w w') (hp : j.place = i.place) (hid : j.id = i.id)
    (htidy : Tidy w' g'.held) (hheld : ∀ t, t ≠ s → t ∈ g.held → t ∈ g'.held)
    (hleft : g'.left = g.left)
    (hpks : ∀ pk ∈ w'.net.packets ++ g'.lost ++ g'.astray ++ arrived',
      pk ∈ w.net.packets ++ g.lost ++ g.astray ++ arrived ∨ w.Addressed pk)
    (hlost : ∀ pk ∈ g'.lost, w'.net.Refuses pk.dest)
    (hended : ∀ t ∈ g'.told, t ∈ g.told ∨ t = s)
    (hbegun : ∀ u ∈ g'.spawned + limbo', u ∈ g.spawned + limbo ∨ u.1 = s)
    (v : ℕ → ℤ) (hv : ∀ k, k ≠ i.place.index → 0 ≤ v k)
    (hhome : i.remoteId? = none → j.counters.Exact ∧
      j.counters.tally i.place = i.counters.tally i.place + v)
    (hidle : ∀ id, i.remoteId? = some id → s ∉ g'.held → j.counters.unreported = 0)
    (hsame : ∀ q id?, (q = i.place → id? = i.id → i.remoteId? = none) →
      w'.episodes g' q id? = w.episodes g q id?)
    (haway : ∀ id, i.remoteId? = some id → ∃ es u,
      w.episodes g i.place (some id) = es ++ [⟨i.place, u⟩] ∧
      w'.episodes g' i.place (some id) = es ++ [⟨i.place, u + v⟩])
    (hout : ∀ r k, w.outstanding g' r k = w.outstanding g r k + if w.Akin r s then v k else 0)
    (hwhere : ∀ r x k, w.instance? r = some x →
      w.unitsAt r k g.spawned = w.tasksAt r k g.told + w.tasksAt r k g.held +
        carriedAt x.id k (w.net.packets ++ g.astray ++ arrived) + w.unitsAt r k limbo →
      w.unitsAt r k g'.spawned = w.tasksAt r k g'.told + w.tasksAt r k g'.held +
        carriedAt x.id k (w'.net.packets ++ g'.astray ++ arrived') + w.unitsAt r k limbo') :
    Consistent w' g' limbo' arrived' := by
  have hjr : j.remoteId? = i.remoteId? := Instance.remoteId?_congr hp hid
  refine h.change hinst htidy (hleft ▸ hst.named h.named hpks) hended hbegun hheld
    (fun hr => (hhome (hjr.symm.trans hr)).1) (fun id hr => hidle id (hjr.symm.trans hr))
    (h.sound_shift hi hinst hp hid v hv (fun hr => (hhome hr).2) hsame haway fun r k => ?_)
    (fun r x k hx hr => ?_) (fun r hr _ => hleft ▸ hr) (fun hm => ?_) hlost
  · rw [← hout]
    unfold outstanding
    rw [hst.unitsAt, hst.tasksAt]
  · rw [hst.unitsAt, hst.tasksAt]
    rw [hinst] at hx
    split_ifs at hx with hrs
    · cases hx
      subst hrs
      rw [hid]
      exact hwhere r i k hi (h.whereabouts r i k hi (hjr.symm.trans hr))
    · exact hwhere r x k hx (h.whereabouts r x k hx hr)
  · -- an instance that holds a task is of a scope that was not left
    obtain ⟨x, hx, hxr, -⟩ := h.closed s (hleft ▸ hm)
    exact absurd (hleft ▸ hm) (h.open_of_held hx hxr (.refl w s) hs)

/-- A change of one instance in a world whose registries stay as they are. -/
structure Changes (w w' : World Pairwise β) (s : Serial) (i j : Instance) : Prop where
  old : w.instance? s = some i
  new : ∀ t, w'.instance? t = if t = s then some j else w.instance? t
  tables : w'.table? = w.table?
  place : j.place = i.place
  id : j.id = i.id

theorem changes_set (hi : w.instance? s = some i) (j : Instance) (hp : j.place = i.place)
    (hid : j.id = i.id) : Changes w (w.setInstance s j) s i j :=
  ⟨hi, instance?_setInstance hi j, rfl, hp, hid⟩

namespace Changes

theorem bound? (hc : Changes w w' s i j) : w'.bound? = w.bound? := by
  funext q id
  rw [bound?_eq, bound?_eq, hc.tables]

theorem steady (hc : Changes w w' s i j) : Steady w w' := by
  refine steady_of_set hc.old hc.new hc.place hc.id ?_ fun id => by rw [hc.bound?]
  funext q
  unfold nextOf?
  rw [hc.tables]

/-- Such a change is seen in the episode of its scope and place only. -/
theorem current (hc : Changes w w' s i j) (h : Tidy w g.held) (q : PlaceId) (id? : Option GlobalId)
    (hne : q = i.place → id? = i.id → i.remoteId? = none) : w'.current q id? = w.current q id? := by
  refine current_congr (fun id _ => by rw [hc.bound?]) fun id t hid hb => ?_
  by_cases hts : t = s
  · subst hts
    obtain ⟨t', y, ht', hy, hyp, hyid⟩ := h.registered q id _ hb
    cases ht'
    obtain rfl : i = y := Option.some.inj (hc.old.symm.trans hy)
    have hir := hne hyp.symm (hid.trans hyid.symm)
    refine .inr ⟨fun x hx => ?_, fun x hx => ?_⟩
    · rw [hc.old] at hx
      cases hx
      exact hir
    · rw [hc.new, if_pos rfl] at hx
      cases hx
      exact (Instance.remoteId?_congr hc.place hc.id).trans hir
  · exact .inl (by rw [hc.new, if_neg hts])

theorem episodes (hc : Changes w w' s i j) (h : Tidy w g.held)
    (hrep : ∀ id?, reportsOf id? (w'.net.packets ++ g'.lost) = reportsOf id? (w.net.packets ++ g.lost))
    (q : PlaceId) (id? : Option GlobalId) (hne : q = i.place → id? = i.id → i.remoteId? = none) :
    w'.episodes g' q id? = w.episodes g q id? := by
  unfold World.episodes
  rw [hrep, hc.current h q id? hne]

/-- There the last episode goes on. -/
theorem episode (hc : Changes w w' s i j) (h : Tidy w g.held) (h' : Tidy w' g'.held)
    (hs : s ∈ g.held) (hs' : s ∈ g'.held) (hr : i.remoteId? = some id) {v : ℕ → ℤ}
    (hu : j.counters.unreported = i.counters.unreported + v)
    (hrep : ∀ id?, reportsOf id? (w'.net.packets ++ g'.lost) =
      reportsOf id? (w.net.packets ++ g.lost)) :
    ∃ es u, w.episodes g i.place (some id) = es ++ [⟨i.place, u⟩] ∧
      w'.episodes g' i.place (some id) = es ++ [⟨i.place, u + v⟩] := by
  have hj : w'.instance? s = some j := by rw [hc.new, if_pos rfl]
  have hjr := (Instance.remoteId?_congr hc.place hc.id).trans hr
  refine ⟨episodesAt i.place (reportsOf (some id) (w.net.packets ++ g.lost)), i.counters.unreported,
    ?_, ?_⟩
  · unfold World.episodes
    rw [current_of_held h hc.old hr hs]
  · unfold World.episodes
    rw [hrep, ← hu, ← hc.place, current_of_held h' hj hjr hs']

end Changes

/-! ### Spawning -/

/-- A task spawned is one more at its destination. -/
theorem outstanding_spawn {target : PlaceId} (hs : g'.spawned = (s, target) ::ₘ g.spawned)
    (ht : g'.told = g.told) (r : Serial) (k : ℕ) :
    w.outstanding g' r k =
      w.outstanding g r k + if w.Akin r s then (Pi.single target.index 1 : ℕ → ℤ) k else 0 := by
  simp only [outstanding, hs, ht, unitsAt_cons, Pi.single_apply, eq_comm (a := k)]
  split_ifs <;> simp_all
  omega

/-- A task that ended is one less at its place. -/
theorem outstanding_tell (hi : w.instance? s = some i) (hs : g'.spawned = g.spawned)
    (ht : g'.told = s ::ₘ g.told) (r : Serial) (k : ℕ) :
    w.outstanding g' r k =
      w.outstanding g r k + if w.Akin r s then (Pi.single i.place.index (-1) : ℕ → ℤ) k else 0 := by
  simp only [outstanding, hs, ht, tasksAt_cons, Pi.single_apply, sitsAt_of (placeOf?_eq hi),
    eq_comm (a := k)]
  split_ifs <;> simp_all
  omega

theorem single_nonneg (k k' : ℕ) : 0 ≤ (Pi.single k 1 : ℕ → ℤ) k' := by
  rw [Pi.single_apply]
  split_ifs <;> decide

theorem Consistent.spawn (h : Consistent w g limbo arrived) (hs : s ∈ g.held) (target : PlaceId) :
    Consistent (w.spawn s target) { g with spawned := (s, target) ::ₘ g.spawned }
      ((s, target) ::ₘ limbo) arrived := by
  obtain ⟨i, hi⟩ := Option.isSome_iff_exists.mp (h.tidy.made s hs)
  have htidy := h.tidy.spawn s target
  have hbegun : ∀ u ∈ (s, target) ::ₘ g.spawned + (s, target) ::ₘ limbo,
      u ∈ g.spawned + limbo ∨ u.1 = s := by
    intro u hu
    simp only [Multiset.mem_add, Multiset.mem_cons] at hu ⊢
    rcases hu with (rfl | hu) | (rfl | hu) <;> simp [*]
  have hwhere : ∀ r (x : Instance) k, w.instance? r = some x →
      w.unitsAt r k g.spawned = w.tasksAt r k g.told + w.tasksAt r k g.held +
        carriedAt x.id k (w.net.packets ++ g.astray ++ arrived) + w.unitsAt r k limbo →
      w.unitsAt r k ((s, target) ::ₘ g.spawned) = w.tasksAt r k g.told + w.tasksAt r k g.held +
        carriedAt x.id k (w.net.packets ++ g.astray ++ arrived) +
          w.unitsAt r k ((s, target) ::ₘ limbo) := by
    intro r x k _ hw
    rw [unitsAt_cons, unitsAt_cons]
    omega
  cases hr : i.remoteId? with
  | none =>
    rw [spawn_home hi hr] at htidy ⊢
    have hc := changes_set hi
      { i with counters := i.counters.spawnAtHome i.place target w.known } rfl rfl
    exact h.shift hi hs hc.new hc.steady rfl rfl htidy (fun _ _ hm => hm) rfl
      (fun _ => .inl) h.lost (fun _ => .inl) hbegun (Pi.single target.index 1)
      (fun k _ => single_nonneg _ k)
      (fun _ => ⟨(Counters.spawnAtHome_spec (h.exact s i hi hr) _ _ _).1,
        Counters.tally_spawnAtHome (h.exact s i hi hr) _ _ _⟩)
      (fun id hid => by rw [hr] at hid; cases hid) (hc.episodes h.tidy fun _ => rfl)
      (fun id hid => by rw [hr] at hid; cases hid) (outstanding_spawn rfl rfl) hwhere
  | some id =>
    rw [spawn_away hi hr] at htidy ⊢
    have hc := changes_set hi { i with counters := i.counters.spawnAway target w.known } rfl rfl
    exact h.shift hi hs hc.new hc.steady rfl rfl htidy (fun _ _ hm => hm) rfl
      (fun _ => .inl) h.lost (fun _ => .inl) hbegun (Pi.single target.index 1)
      (fun k _ => single_nonneg _ k) (fun hid => by rw [hr] at hid; cases hid)
      (fun _ _ hm => absurd hs hm) (hc.episodes h.tidy fun _ => rfl)
      (fun id' hid => hc.episode h.tidy htidy hs hs hid (Counters.unreported_addAway _ _ _ _)
        fun _ => rfl)
      (outstanding_spawn rfl rfl) hwhere

/-! ### Sending -/

@[simp] theorem refused_nil (w : World Pairwise β) : w.refused [] = [] := rfl

theorem offer_accepted {n : Pairwise (Message β)} {pk : Packet (Message β)}
    (h : ¬ n.Refuses pk.dest) : offer n pk = { n with packets := n.packets ++ [pk] } := by
  unfold offer
  rw [Pairwise.send_accepted h]

theorem offer_refused {n : Pairwise (Message β)} {pk : Packet (Message β)}
    (h : n.Refuses pk.dest) : offer n pk = n := by
  obtain ⟨e, he⟩ := Pairwise.send_refused h
  unfold offer
  rw [he]

theorem refuses_offer (n : Pairwise (Message β)) (pk : Packet (Message β)) :
    (offer n pk).Refuses = n.Refuses := by
  by_cases h : n.Refuses pk.dest
  · rw [offer_refused h]
  · rw [offer_accepted h]
    rfl

/-- A packet that could not be sent is lost; so each one offered is in one of the two lists. -/
theorem mem_offer {pk x : Packet (Message β)}
    (h : x ∈ (offer w.net pk).packets ++ (g.lost ++ w.refused [pk])) :
    x ∈ w.net.packets ++ g.lost ∨ x = pk := by
  by_cases hr : w.net.Refuses pk.dest
  · rw [offer_refused hr] at h
    simp only [refused, List.mem_append, List.mem_filter, List.mem_singleton] at h ⊢
    tauto
  · rw [offer_accepted hr] at h
    simp only [refused, List.mem_append, List.mem_filter, List.mem_singleton] at h ⊢
    tauto

/-- A lost report was for a place that refuses, so there is none for a place that does not. -/
theorem Consistent.reportsOf_lost (h : Consistent w g limbo arrived) (hn : ¬ w.net.Refuses id.home) :
    reportsOf (some id) g.lost = [] := by
  unfold reportsOf
  rw [List.filterMap_eq_nil_iff]
  intro pk hpk
  obtain ⟨sender, dest, m⟩ := pk
  have hl := h.lost _ hpk
  have ha := h.named.addressed ⟨sender, dest, m⟩ (by simp [hpk])
  cases m with
  | handOff tokens body => rfl
  | failure id' payload => rfl
  | report id' deltas =>
    simp only [Addressed] at ha
    simp only [Message.deltas?, Option.some.injEq]
    split_ifs with hid
    · subst hid
      rw [ha.2.1] at hl
      exact absurd hl hn
    · rfl

/-- The report of an instance is the last one of its scope, whether it is sent or lost. -/
theorem Consistent.reportsOf_offer (h : Consistent w g limbo arrived) (sender : PlaceId)
    (deltas : List Int) (id? : Option GlobalId) :
    reportsOf id? ((offer w.net ⟨sender, id.home, .report id deltas⟩).packets ++
        (g.lost ++ w.refused [⟨sender, id.home, .report id deltas⟩])) =
      reportsOf id? (w.net.packets ++ g.lost) ++
        if some id = id? then [⟨sender, Counters.slot deltas⟩] else [] := by
  have hnew : reportsOf id? [(⟨sender, id.home, .report id deltas⟩ : Packet (Message β))] =
      if some id = id? then [⟨sender, Counters.slot deltas⟩] else [] := by
    rw [reportsOf_cons, reportsOf_nil, List.append_nil]
    simp only [Message.deltas?]
    split_ifs <;> rfl
  by_cases hr : w.net.Refuses id.home
  · rw [offer_refused hr, show w.refused [⟨sender, id.home, .report id deltas⟩] =
      [⟨sender, id.home, .report id deltas⟩] by simp [refused, hr], ← List.append_assoc,
      reportsOf_append, hnew]
  · rw [offer_accepted hr, show w.refused [⟨sender, id.home, .report id deltas⟩] = [] by
      simp [refused, hr], List.append_nil]
    simp only [reportsOf_append, hnew]
    split_ifs with hid
    · subst hid
      rw [h.reportsOf_lost hr, List.append_nil, List.append_nil]
    · rw [List.append_nil, List.append_nil]

/-- A report carries no task. -/
theorem carriedAt_offer (n : Pairwise (Message β)) (sender dest : PlaceId) (deltas : List Int)
    (id? : Option GlobalId) (k : ℕ) :
    carriedAt id? k (offer n ⟨sender, dest, .report id deltas⟩).packets = carriedAt id? k n.packets := by
  by_cases hr : n.Refuses dest
  · rw [offer_refused hr]
  · rw [offer_accepted hr]
    simp [Message.carried]

/-! ### Ends of tasks -/

/-- A task that ends is held no more, and is told instead. -/
theorem tasksAt_tell (w : World Pairwise β) {held : Multiset Serial} (hs : s ∈ held)
    (told : Multiset Serial) (r : Serial) (k : ℕ) :
    w.tasksAt r k (s ::ₘ told) + w.tasksAt r k (held.erase s) =
      w.tasksAt r k told + w.tasksAt r k held := by
  have := tasksAt_erase (w := w) hs r k
  rw [tasksAt_cons]
  omega

/-- The end of the last task of an instance: a report is offered to the network, and the instance
gives up its identity. -/
theorem tell_last {deltas : List Int} {c : Counters} (hi : w.instance? s = some i)
    (hr : i.remoteId? = some id) (hd : i.counters.tellAway i.place w.known = (some deltas, c)) :
    (w.tell s).net = offer w.net ⟨i.place, id.home, .report id deltas⟩ ∧
      (∀ t, (w.tell s).instance? t =
        if t = s then some { i with counters := c, bound := false } else w.instance? t) ∧
      (∀ q id', (w.tell s).bound? q id' =
        if q = i.place ∧ id' = id ∧ w.bound? i.place id = some (.scope s) then none
        else w.bound? q id') ∧
      (w.tell s).nextOf? = w.nextOf? := by
  rw [tell_away_report hi hr hd, report_eq]
  exact ⟨rfl, instance?_setInstance hi _, fun q id' => bound?_unbind .., nextOf?_unbind ..⟩

/-- The last task of an instance away from home ends. Its episode becomes a report. -/
theorem Consistent.tellLast (h : Consistent w g limbo arrived) (hi : w.instance? s = some i)
    (hr : i.remoteId? = some id) (hs : s ∈ g.held) (h1 : i.counters.count = 1) :
    Consistent (w.tell s) (w.afterTell g s) limbo arrived := by
  obtain ⟨deltas, c, hd, hslot, -, hun⟩ := Counters.tellAway_report i.place w.known h1
  obtain ⟨hid, hne⟩ := Instance.remoteId?_eq_some.mp hr
  have htidy := h.tidy.tell (s := s) fun _ _ _ _ => hs
  have hdue : w.due s = [⟨i.place, id.home, .report id deltas⟩] := by simp [due, hi, hr, hd]
  have hbs := h.tidy.bound_of_held hi hr hs
  obtain ⟨hnet, hinst, hbound, hnext⟩ := tell_last hi hr hd
  generalize w.tell s = w' at htidy hnet hinst hbound hnext ⊢
  have hst : Steady w w' := by
    refine steady_of_set hi hinst rfl rfl hnext fun id' => ?_
    rw [hbound, if_neg]
    exact fun hc => hne (hc.2.1 ▸ hc.1)
  have hrep : ∀ id?, reportsOf id? (w'.net.packets ++ (w.afterTell g s).lost) =
      reportsOf id? (w.net.packets ++ g.lost) ++
        if some id = id? then [⟨i.place, Counters.slot deltas⟩] else [] := fun id? => by
    rw [hnet, afterTell, hdue]
    exact h.reportsOf_offer i.place deltas id?
  refine h.shift hi hs hinst hst rfl rfl htidy
    (fun t ht hm => (Multiset.mem_erase_of_ne ht).mpr hm) rfl (fun pk hpk => ?_) (fun pk hpk => ?_)
    (fun t ht => (Multiset.mem_cons.mp ht).symm) (fun _ => .inl) (Pi.single i.place.index (-1))
    (fun k hk => by rw [Pi.single_eq_of_ne hk]) (fun hx => by rw [hr] at hx; cases hx)
    (fun _ _ _ => hun) (fun q id? hq => ?_) (fun id' hid' => ?_) (outstanding_tell hi rfl rfl)
    fun r x k _ hw => ?_
  · rw [hnet, afterTell, hdue] at hpk
    rw [List.append_assoc, List.mem_append] at hpk
    rcases hpk with hpk | hpk
    · rcases mem_offer hpk with hm | rfl
      · exact .inl (by simp only [List.mem_append] at hm ⊢; tauto)
      · exact .inr ⟨h.named.rooted s id (by rw [idOf?_eq hi, hid]), rfl, Ne.symm hne⟩
    · exact .inl (by simp only [List.mem_append] at hpk ⊢; tauto)
  · rw [hnet, refuses_offer]
    rcases List.mem_append.mp hpk with hm | hm
    · exact h.lost pk hm
    · simpa using (List.mem_filter.mp hm).2
  · unfold episodes
    rw [hrep, episodesAt_append]
    have hnew : episodesAt q (if some id = id? then [⟨i.place, Counters.slot deltas⟩] else []) = [] := by
      split_ifs with hid'
      · rw [episodesAt_cons, if_neg, episodesAt_nil]
        intro hq'
        rw [hq hq'.symm (hid'.symm.trans hid.symm)] at hr
        cases hr
      · rfl
    rw [hnew, List.append_nil]
    congr 1
    have hnot : ∀ id', id? = some id' → ¬ (q = i.place ∧ id' = id) := fun id' hx ⟨hq1, hq2⟩ => by
      rw [hq hq1 (by rw [hx, hq2, hid])] at hr
      cases hr
    refine current_congr (fun id' hx => ?_) fun id' t hx hb => .inl ?_
    · rw [hbound, if_neg fun hc => hnot id' hx ⟨hc.1, hc.2.1⟩]
    · refine (hinst t).trans (if_neg fun hts => ?_)
      subst hts
      obtain ⟨t', y, ht', hy, hyp, hyid⟩ := h.tidy.registered q id' _ hb
      cases ht'
      obtain rfl : i = y := Option.some.inj (hi.symm.trans hy)
      exact hnot id' hx ⟨hyp.symm, Option.some.inj (hyid.symm.trans hid)⟩
  · obtain rfl : id = id' := Option.some.inj (hr.symm.trans hid')
    refine ⟨episodesAt i.place (reportsOf (some id) (w.net.packets ++ g.lost)),
      i.counters.unreported, ?_, ?_⟩
    · unfold episodes
      rw [current_of_held h.tidy hi hr hs]
    · have hb : w'.bound? i.place id = none := (hbound _ _).trans (if_pos ⟨rfl, rfl, hbs⟩)
      unfold episodes
      rw [hrep, if_pos rfl, episodesAt_append, episodesAt_cons, if_pos rfl, episodesAt_nil, hslot,
        show w'.current i.place (some id) = [] by simp [current, hb], List.append_nil]
  · have := tasksAt_tell w hs g.told r k
    show _ = w.tasksAt r k (s ::ₘ g.told) + w.tasksAt r k (g.held.erase s) +
      carriedAt x.id k (w'.net.packets ++ g.astray ++ arrived) + _
    rw [hnet]
    simp only [carriedAt_append, carriedAt_offer] at hw ⊢
    show w.unitsAt r k g.spawned = _
    omega

theorem Consistent.tell (h : Consistent w g limbo arrived) (hs : s ∈ g.held) :
    Consistent (w.tell s) (w.afterTell g s) limbo arrived := by
  obtain ⟨i, hi⟩ := Option.isSome_iff_exists.mp (h.tidy.made s hs)
  have htidy := h.tidy.tell (s := s) fun _ _ _ _ => hs
  have hheld : ∀ t, t ≠ s → t ∈ g.held → t ∈ g.held.erase s := fun t ht hm =>
    (Multiset.mem_erase_of_ne ht).mpr hm
  have hended : ∀ t ∈ s ::ₘ g.told, t ∈ g.told ∨ t = s := fun t ht =>
    (Multiset.mem_cons.mp ht).symm
  have hv : ∀ k, k ≠ i.place.index → 0 ≤ (Pi.single i.place.index (-1) : ℕ → ℤ) k := fun k hk => by
    rw [Pi.single_eq_of_ne hk]
  have hwhere : ∀ r (x : Instance) k,
      w.unitsAt r k g.spawned = w.tasksAt r k g.told + w.tasksAt r k g.held +
        carriedAt x.id k (w.net.packets ++ g.astray ++ arrived) + w.unitsAt r k limbo →
      w.unitsAt r k g.spawned = w.tasksAt r k (s ::ₘ g.told) + w.tasksAt r k (g.held.erase s) +
        carriedAt x.id k (w.net.packets ++ g.astray ++ arrived) + w.unitsAt r k limbo := by
    intro r x k hw
    have := tasksAt_tell w hs g.told r k
    omega
  cases hr : i.remoteId? with
  | none =>
    have hdue : w.due s = [] := by simp [due, hi, hr]
    unfold afterTell
    rw [hdue, refused_nil, List.append_nil]
    rw [tell_home hi hr] at htidy ⊢
    have hc := changes_set hi (i.retire (i.counters.tellAtHome i.place w.known).1.released
      (i.counters.tellAtHome i.place w.known).2) rfl rfl
    refine h.shift hi hs hc.new hc.steady rfl rfl htidy hheld rfl (fun _ => .inl) h.lost hended
      (fun _ => .inl) (Pi.single i.place.index (-1)) hv
      (fun _ => ⟨(Counters.tellAtHome_spec (h.exact s i hi hr) _ _).1,
        Counters.tally_tellAtHome _ _ _⟩)
      (fun id hid => by rw [hr] at hid; cases hid) (hc.episodes h.tidy fun _ => rfl)
      (fun id hid => by rw [hr] at hid; cases hid) (outstanding_tell hi rfl rfl) fun r x k _ hw => ?_
    exact hwhere r x k hw
  | some id =>
    have hone : 1 ≤ g.held.count s := Multiset.one_le_count_iff_mem.mpr hs
    have hcount := h.tidy.count s i id hi hr
    by_cases h1 : i.counters.count = 1
    · exact h.tellLast hi hr hs h1
    · have hq := Counters.tellAway_quiet i.place w.known h1
      have hdue : w.due s = [] := by simp [due, hi, hr, hq]
      have hs' : s ∈ g.held.erase s := by
        rw [← Multiset.one_le_count_iff_mem, Multiset.count_erase_self]
        omega
      unfold afterTell
      rw [hdue, refused_nil, List.append_nil]
      rw [tell_away_quiet hi hr hq] at htidy ⊢
      have hc := changes_set hi { i with counters :=
        { i.counters.addAway i.place.index w.known (-1) with count := i.counters.count - 1 } } rfl rfl
      refine h.shift hi hs hc.new hc.steady rfl rfl htidy hheld rfl (fun _ => .inl) h.lost hended
        (fun _ => .inl) (Pi.single i.place.index (-1)) hv (fun hid => by rw [hr] at hid; cases hid)
        (fun _ _ hm => absurd hs' hm) (hc.episodes h.tidy fun _ => rfl)
        (fun id' hid => hc.episode h.tidy htidy hs hs' hid
          (Counters.unreported_addAway i.counters i.place.index w.known (-1)) fun _ => rfl)
        (outstanding_tell hi rfl rfl) fun r x k _ hw => ?_
      exact hwhere r x k hw

/-! ### Acceptance -/

/-- Where the identity is bound to an instance that holds nothing, no episode goes on. -/
theorem current_of_bound (h : Tidy w g.held) (hi : w.instance? s = some i)
    (hr : i.remoteId? = some id) (hb : i.bound = true) (hs : s ∉ g.held) :
    w.current i.place (some id) = [] := by
  refine current_of_idle h fun t x hx hxr hxp ht => hs ?_
  have h1 := h.bound_of_held hx hxr ht
  have h2 := (h.flag s i id hi hr).mp hb
  rw [hxp, h2] at h1
  cases h1
  exact ht

/-- The first task of an instance away from home begins an episode. -/
theorem Consistent.sound_submit (h : Consistent w g limbo arrived) (hc : Changes w w' s i j)
    (hr : i.remoteId? = some id) (hb : i.bound = true) (hnet : w'.net = w.net)
    (hu : j.counters.unreported = i.counters.unreported)
    (htidy : Tidy w' (s ::ₘ g.held))
    (hpos : ∀ r x, w.instance? r = some x → x.remoteId? = none → w.Akin r s →
      1 ≤ w.outstanding g r i.place.index) :
    ∀ r x, w'.instance? r = some x → x.remoteId? = none →
      (w'.account { g with held := s ::ₘ g.held } r x).Sound := by
  intro r x hx hxr
  have hj : w'.instance? s = some j := by rw [hc.new, if_pos rfl]
  have hjr : j.remoteId? = some id := (Instance.remoteId?_congr hc.place hc.id).trans hr
  have hrs : r ≠ s := fun hrs => by
    rw [hrs, hj] at hx
    cases hx
    rw [hjr] at hxr
    cases hxr
  have hx0 : w.instance? r = some x := by rwa [hc.new, if_neg hrs] at hx
  obtain ⟨hid, hne⟩ := Instance.remoteId?_eq_some.mp hr
  have hrep : ∀ id?, reportsOf id? (w'.net.packets ++ g.lost) =
      reportsOf id? (w.net.packets ++ g.lost) := fun _ => by rw [hnet]
  have hout : w'.outstanding { g with held := s ::ₘ g.held } r = w.outstanding g r := by
    funext k
    unfold outstanding
    rw [hc.steady.unitsAt, hc.steady.tasksAt]
  have hsame : ∀ q id?, (q = i.place → id? = i.id → i.remoteId? = none) →
      w'.episodes { g with held := s ::ₘ g.held } q id? = w.episodes g q id? :=
    hc.episodes h.tidy hrep
  have hcur' : w'.current i.place (some id) = [⟨i.place, i.counters.unreported⟩] := by
    rw [← hu, ← hc.place]
    exact current_of_held (g := { g with held := s ::ₘ g.held }) htidy hj hjr
      (Multiset.mem_cons_self s _)
  by_cases hak : w.Akin r s
  · have hxid : x.id = some id := by
      rw [← idOf?_eq hx0]
      exact (akin_iff (by rw [idOf?_eq hc.old, hid])).mp hak
    have hother : ∀ q, q ≠ i.place →
        w'.episodes { g with held := s ::ₘ g.held } q x.id = w.episodes g q x.id :=
      fun q hq => hsame q x.id fun hq' => absurd hq' hq
    by_cases hs : s ∈ g.held
    · refine (h.sound r x hx0 hxr).congr rfl rfl (funext fun q => ?_) hout
      by_cases hq : q = i.place
      · subst hq
        show World.episodes _ _ i.place x.id = World.episodes _ _ i.place x.id
        unfold World.episodes
        rw [hxid, hcur', current_of_held h.tidy hc.old hr hs, hrep]
      · exact hother q hq
    · have hplace : i.place ≠ x.place := fun hp =>
        hne (hp.trans (Instance.remoteId?_eq_none.mp hxr id hxid).symm).symm
      refine (h.sound r x hx0 hxr).start hplace (hpos r x hx0 hxr hak) rfl rfl ?_ hother hout
      show World.episodes _ _ i.place x.id = World.episodes _ _ i.place x.id ++ _
      unfold World.episodes
      rw [hxid, hcur', current_of_bound h.tidy hc.old hr hb hs, hrep, h.idle s i id hc.old hr hs,
        List.append_nil]
  · refine (h.sound r x hx0 hxr).congr rfl rfl (funext fun q => ?_) hout
    refine hsame q x.id fun _ hxid => absurd ?_ hak
    exact (akin_iff (by rw [idOf?_eq hc.old, hid])).mpr (by rw [idOf?_eq hx0, hxid, hid])

/-- A task that is on its way is accepted, by the root or by an instance that is bound. -/
theorem Consistent.submit (h : Consistent w g limbo arrived) (limbo' : Multiset (Serial × PlaceId))
    (arrived' : List (Packet (Message β))) (hi : w.instance? s = some i)
    (hb : ∀ id, i.remoteId? = some id → i.bound = true)
    (harr : ∀ pk ∈ arrived', pk ∈ arrived ∨ w.Addressed pk) (hlim : ∀ u ∈ limbo', u ∈ limbo)
    (hwhere : ∀ r x k, w.instance? r = some x →
      carriedAt x.id k arrived + w.unitsAt r k limbo = carriedAt x.id k arrived' +
        w.unitsAt r k limbo' + if w.Akin r s ∧ i.place.index = k then 1 else 0) :
    Consistent (w.submit s).2 { g with held := s ::ₘ g.held } limbo' arrived' := by
  have hsi : (w.instance? s).isSome := by rw [hi]; rfl
  have hacc : (w.submit s).1 = true := by
    cases hr : i.remoteId? with
    | none => rw [submit_home hi hr]
    | some id => rw [submit_bound hi hr (hb id hr)]
  have htidy := h.tidy.submit hsi
  rw [if_pos hacc] at htidy
  have hpks : ∀ pk ∈ w.net.packets ++ g.lost ++ g.astray ++ arrived',
      pk ∈ w.net.packets ++ g.lost ++ g.astray ++ arrived ∨ w.Addressed pk := fun pk hpk => by
    rcases List.mem_append.mp hpk with hpk | hpk
    · exact .inl (List.mem_append_left _ hpk)
    · exact (harr pk hpk).imp (List.mem_append_right _) id
  have hbegun : ∀ u ∈ g.spawned + limbo', (w.instance? u.1).isSome := fun u hu =>
    h.begun u ((Multiset.mem_add.mp hu).elim (fun hu => Multiset.mem_add.mpr (.inl hu))
      fun hu => Multiset.mem_add.mpr (.inr (hlim u hu)))
  have hwhere' : ∀ r x k, w.instance? r = some x → x.remoteId? = none →
      w.unitsAt r k g.spawned = w.tasksAt r k g.told + w.tasksAt r k (s ::ₘ g.held) +
        carriedAt x.id k (w.net.packets ++ g.astray ++ arrived') + w.unitsAt r k limbo' := by
    intro r x k hx hxr
    have h1 := h.whereabouts r x k hx hxr
    have h2 := hwhere r x k hx
    simp only [tasksAt_cons, sitsAt_of (placeOf?_eq hi), carriedAt_append] at h1 ⊢
    omega
  cases hr : i.remoteId? with
  | none =>
    rw [submit_home hi hr] at htidy ⊢
    exact { h with
      tidy := htidy
      named := (Steady.refl w).named h.named hpks
      begun := hbegun
      idle := fun t x id hx hxr ht => h.idle t x id hx hxr fun hm => ht (Multiset.mem_cons_of_mem hm)
      sound := h.sound
      whereabouts := hwhere' }
  | some id =>
    rw [submit_bound hi hr (hb id hr)] at htidy ⊢
    have hc := changes_set hi { i with counters := i.counters.submitAway } rfl rfl
    have hnew : ∀ t x, (w.setInstance s { i with counters := i.counters.submitAway }).instance? t =
        some x → x.remoteId? = none → w.instance? t = some x := fun t x hx hxr => by
      rw [hc.new] at hx
      split_ifs at hx with hts
      · cases hx
        rw [(Instance.remoteId?_congr hc.place hc.id).trans hr] at hxr
        cases hxr
      · exact hx
    have hjr : Instance.remoteId? { i with counters := i.counters.submitAway } = some id := hr
    refine h.change hc.new htidy (hc.steady.named h.named hpks) (fun _ => .inl)
      (fun u hu => .inl ?_) (fun t _ hm => Multiset.mem_cons_of_mem hm)
      (fun hx => by rw [hjr] at hx; cases hx) (fun _ _ hm => absurd (Multiset.mem_cons_self s g.held) hm)
      (h.sound_submit hc hr (hb id hr) rfl rfl htidy fun r x hx hxr hak => ?_)
      (fun r x k hx hxr => ?_) (fun _ hl _ => hl) (fun hl => ?_) h.lost
    · exact (Multiset.mem_add.mp hu).elim (fun hu => Multiset.mem_add.mpr (.inl hu))
        fun hu => Multiset.mem_add.mpr (.inr (hlim u hu))
    · have h1 := hwhere' r x i.place.index hx hxr
      rw [tasksAt_cons, if_pos ⟨hak, (sitsAt_of (placeOf?_eq hi) _).mpr rfl⟩] at h1
      unfold outstanding
      omega
    · rw [hc.steady.unitsAt, hc.steady.tasksAt]
      exact hwhere' r x k (hnew r x hx hxr) hxr
    · obtain ⟨x, hx, hxr, -⟩ := h.closed s hl
      obtain rfl := Option.some.inj (hi.symm.trans hx)
      rw [hr] at hxr
      cases hxr

end World

end Quiescence
