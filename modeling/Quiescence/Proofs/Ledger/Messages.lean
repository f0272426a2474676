/-
# Messages keep the accounts

Changes that leave the instances and the registries alone: messages are sent,
taken, lost or gone astray, places are killed, workers take up tasks. And the
one message that is applied without any task: a report, which the root adds to
its tallies (`Consistent.merge`).
-/
import Quiescence.Proofs.Ledger.Steps

namespace Quiescence

namespace World

variable {β : Type} {w w' : World Pairwise β} {g g' : Ledger β}
  {limbo limbo' : Multiset (Serial × PlaceId)} {arrived arrived' : List (Packet (Message β))}
  {r s : Serial} {i j : Instance} {p : PlaceId} {id : GlobalId}

/-- The same world with other packets on their way. -/
def withPackets (w : World Pairwise β) (pks : List (Packet (Message β))) : World Pairwise β :=
  { w with net := { w.net with packets := pks } }

@[simp] theorem packets_withPackets (w : World Pairwise β) (pks : List (Packet (Message β))) :
    (w.withPackets pks).net.packets = pks := rfl

/-- What is taken from a lane is the first packet of it, and the others stay. -/
theorem take_spec {lane : Lane} {pk : Packet (Message β)} {net : Pairwise (Message β)}
    (h : Network.take w.net lane = some (pk, net)) : ∃ before after,
      w.net.packets = before ++ pk :: after ∧
      ({ w with net } : World Pairwise β) = w.withPackets (before ++ after) ∧
      ∀ q ∈ before, q.dest = pk.dest → q.sender ≠ pk.sender := by
  obtain ⟨before, after, hp, rfl, hb⟩ := Pairwise.take_split h
  exact ⟨before, after, hp, rfl, hb⟩

/-- The instances and the registries stay as they are; messages move, and no report does. -/
theorem Consistent.moved (h : Consistent w g limbo arrived) (hi : w'.instances = w.instances)
    (ht : w'.table? = w.table?) (hheld : g'.held = g.held) (hspawned : g'.spawned = g.spawned)
    (htold : g'.told = g.told) (hleft : g'.left = g.left)
    (hpks : ∀ pk ∈ w'.net.packets ++ g'.lost ++ g'.astray ++ arrived',
      pk ∈ w.net.packets ++ g.lost ++ g.astray ++ arrived ∨ w.Addressed pk)
    (hlost : ∀ pk ∈ g'.lost, w'.net.Refuses pk.dest) (hlimbo : ∀ u ∈ limbo', u ∈ limbo)
    (hrep : ∀ id?, reportsOf id? (w'.net.packets ++ g'.lost) = reportsOf id? (w.net.packets ++ g.lost))
    (hcarried : ∀ r x k, w.instance? r = some x →
      carriedAt x.id k (w.net.packets ++ g.astray ++ arrived) + w.unitsAt r k limbo =
        carriedAt x.id k (w'.net.packets ++ g'.astray ++ arrived') + w.unitsAt r k limbo') :
    Consistent w' g' limbo' arrived' := by
  have hinst : w'.instance? = w.instance? := by
    funext t
    unfold instance?
    rw [hi]
  have hbound : w'.bound? = w.bound? := by
    funext q id
    rw [bound?_eq, bound?_eq, ht]
  have hst : Steady w w' := by
    refine ⟨⟨?_, ?_⟩, ?_, fun id => by rw [hbound]⟩
    · funext t
      simp [World.idOf?, hinst]
    · funext t
      simp [placeOf?, hinst]
    · funext q
      simp [nextOf?, ht]
  have hout : w'.outstanding g' = w.outstanding g := by
    funext r k
    unfold outstanding
    rw [hst.unitsAt, hst.tasksAt, hspawned, htold]
  have hepi : w'.episodes g' = w.episodes g := by
    funext q id?
    unfold episodes
    rw [hrep]
    congr 1
    exact current_congr (fun id _ => by rw [hbound]) fun id t _ _ => .inl (by rw [hinst])
  refine
    { tidy := by rw [hheld]; exact h.tidy.congr hi ht
      named := by rw [hleft]; exact hst.named h.named hpks
      ended := by rw [htold, hinst]; exact h.ended
      begun := fun u hu => ?_
      exact := by rw [hinst]; exact h.exact
      idle := by rw [hinst, hheld]; exact h.idle
      sound := fun r x hx hr => ?_
      whereabouts := fun r x k hx hr => ?_
      closed := by rw [hinst, hleft]; exact h.closed
      lost := hlost }
  · rw [hinst]
    rw [hspawned] at hu
    exact h.begun u ((Multiset.mem_add.mp hu).elim (fun hu => Multiset.mem_add.mpr (.inl hu))
      fun hu => Multiset.mem_add.mpr (.inr (hlimbo u hu)))
  · rw [hinst] at hx
    exact (h.sound r x hx hr).congr rfl rfl (by unfold account; rw [hepi]) (by unfold account; rw [hout])
  · rw [hinst] at hx
    rw [hst.unitsAt, hst.tasksAt, hspawned, htold, hheld]
    have h1 := h.whereabouts r x k hx hr
    have h2 := hcarried r x k hx
    omega

/-- Workers, diagnostics and whatever else is neither an instance nor a registry nor a message. -/
theorem Consistent.alike (h : Consistent w g limbo arrived) (ha : Alike w w') :
    Consistent w' g limbo arrived :=
  h.moved ha.instances ha.tables rfl rfl rfl rfl (fun pk => by rw [ha.net]; exact .inl)
    (by rw [ha.net]; exact h.lost) (fun _ hu => hu) (fun _ => by rw [ha.net])
    fun _ _ _ _ => by rw [ha.net]

/-- Places are killed, or their number changes. What was lost must still be refused. -/
theorem Consistent.renet (h : Consistent w g limbo arrived) {net : Pairwise (Message β)}
    (hp : net.packets = w.net.packets) (hl : ∀ pk ∈ g.lost, net.Refuses pk.dest) :
    Consistent { w with net } g limbo arrived :=
  h.moved rfl rfl rfl rfl rfl rfl (fun pk => by rw [hp]; exact .inl) hl (fun _ hu => hu)
    (fun _ => by rw [hp]) fun _ _ _ _ => by rw [hp]

/-- A message that carries tasks is taken off the network. -/
theorem Consistent.arrive (h : Consistent w g limbo arrived) {before after : List (Packet (Message β))}
    {pk : Packet (Message β)} (hp : w.net.packets = before ++ pk :: after)
    (hd : ∀ id?, pk.content.deltas? id? = none) :
    Consistent (w.withPackets (before ++ after)) g limbo (pk :: arrived) := by
  refine h.moved rfl rfl rfl rfl rfl rfl (fun x hx => .inl ?_) h.lost (fun _ hu => hu)
    (fun id? => ?_) fun r x k _ => ?_
  · rw [hp]
    simp only [packets_withPackets, List.mem_append, List.mem_cons] at hx ⊢
    tauto
  · rw [hp]
    simp [hd]
  · rw [hp]
    simp only [packets_withPackets, carriedAt_append, carriedAt_cons]
    omega

/-- Tasks in limbo leave in a message. -/
theorem Consistent.post {us : Multiset (Serial × PlaceId)} (h : Consistent w g (us + limbo) arrived)
    (pk : Packet (Message β)) (ha : w.Addressed pk) (hd : ∀ id?, pk.content.deltas? id? = none)
    (hus : ∀ r x k, w.instance? r = some x →
      w.unitsAt r k us = if pk.dest.index = k then pk.content.carried x.id else 0) :
    Consistent (w.withPackets (w.net.packets ++ [pk])) g limbo arrived := by
  refine h.moved rfl rfl rfl rfl rfl rfl (fun x hx => ?_) h.lost
    (fun u hu => Multiset.mem_add.mpr (.inr hu)) (fun id? => ?_) fun r x k hx => ?_
  · simp only [packets_withPackets, List.mem_append, List.mem_singleton] at hx ⊢
    by_cases hx' : x = pk
    · exact .inr (hx' ▸ ha)
    · exact .inl (by tauto)
  · simp [hd]
  · have := hus r x k hx
    simp only [packets_withPackets, carriedAt_append, carriedAt_cons, carriedAt_nil, unitsAt_add]
    omega

/-- A message has come to a place that was never built. -/
theorem Consistent.stray {pk : Packet (Message β)} (h : Consistent w g limbo (pk :: arrived)) :
    Consistent w { g with astray := g.astray ++ [pk] } limbo arrived := by
  refine h.moved rfl rfl rfl rfl rfl rfl (fun x hx => .inl ?_) h.lost (fun _ hu => hu)
    (fun _ => rfl) fun r x k _ => ?_
  · simp only [List.mem_append, List.mem_cons] at hx ⊢
    tauto
  · simp only [carriedAt_append, carriedAt_cons, carriedAt_nil]
    omega

/-- A scope with a task spawned and not ended has not been left, and neither has one with a report
that its root has not heard of. -/
theorem Consistent.open_of_outstanding (h : Consistent w g limbo arrived)
    (hi : w.instance? r = some i) {k : ℕ}
    (hk : carriedAt i.id k (w.net.packets ++ g.astray ++ arrived) ≠ 0) : r ∉ g.left := fun hl => by
  obtain ⟨i', hi', hr, hz⟩ := h.closed r hl
  obtain rfl : i = i' := Option.some.inj (hi.symm.trans hi')
  exact hk ((h.settled hi hr hz).2 k).2.2.1

theorem Consistent.open_of_episode (h : Consistent w g limbo arrived)
    (hi : w.instance? r = some i) (hp : w.episodes g p i.id ≠ []) : r ∉ g.left := fun hl => by
  obtain ⟨i', hi', hr, hz⟩ := h.closed r hl
  obtain rfl : i = i' := Option.some.inj (hi.symm.trans hi')
  exact hp ((h.settled hi hr hz).1 p)

/-- Reports of a scope that wait before one taken from a lane come from other places. -/
theorem Consistent.reportsOf_before (h : Consistent w g limbo arrived)
    {before after : List (Packet (Message β))} {pk : Packet (Message β)}
    (hp : w.net.packets = before ++ pk :: after) (hd : pk.dest = id.home)
    (hb : ∀ q ∈ before, q.dest = pk.dest → q.sender ≠ pk.sender) :
    episodesAt pk.sender (reportsOf (some id) before) = [] := by
  unfold episodesAt
  rw [List.filter_eq_nil_iff]
  intro e he
  obtain ⟨q, hq, heq⟩ := List.mem_filterMap.mp he
  obtain ⟨deltas, hdel, rfl⟩ := Option.map_eq_some_iff.mp heq
  have ha := h.named.addressed q (by simp [hp, hq])
  obtain ⟨sender, dest, m⟩ := q
  cases m with
  | handOff tokens body => cases hdel
  | failure id' payload => cases hdel
  | report id' deltas' =>
    simp only [Message.deltas?, Option.some.injEq] at hdel
    split_ifs at hdel with hid
    subst hid
    simpa using hb _ hq (ha.2.1.trans hd.symm)

/-- A report for a scope whose root is bound goes to the root. -/
theorem receiveReport_root {deltas : List Int} (hi : w.instance? r = some i)
    (hb : w.bound? p id = some (.scope r)) :
    w.receiveReport p id deltas = w.setInstance r (i.retire
      (i.counters.update i.place deltas w.known).1 (i.counters.update i.place deltas w.known).2) := by
  have hl : w.lookup p id = .ok r := by simp [lookup, hb]
  simp only [receiveReport, hl, update_eq hi]

/-- Where a report has arrived, the root is there, and it is the earliest report of its place. -/
theorem Consistent.root_of_report (h : Consistent w g limbo arrived)
    {before after : List (Packet (Message β))} {sender dest : PlaceId} {deltas : List Int}
    (hp : w.net.packets = before ++ ⟨sender, dest, .report id deltas⟩ :: after)
    (hb : ∀ q ∈ before, q.dest = dest → q.sender ≠ sender) :
    dest = id.home ∧ ∃ r i, w.instance? r = some i ∧ i.id = some id ∧ i.place = id.home ∧
      i.remoteId? = none ∧ w.bound? id.home id = some (.scope r) ∧ r ∉ g.left ∧
      w.episodes g sender (some id) = ⟨sender, Counters.slot deltas⟩ ::
        (episodesAt sender (reportsOf (some id) (after ++ g.lost)) ++ w.current sender (some id)) := by
  obtain ⟨hroot, hd, -⟩ := h.named.addressed ⟨sender, dest, .report id deltas⟩ (by simp [hp])
  simp only at hd
  subst hd
  obtain ⟨r, i, hi, hid, hip, hr⟩ := hroot.root
  have hfirst : w.episodes g sender (some id) = ⟨sender, Counters.slot deltas⟩ ::
      (episodesAt sender (reportsOf (some id) (after ++ g.lost)) ++ w.current sender (some id)) := by
    unfold episodes
    rw [hp]
    simp only [List.append_assoc, List.cons_append, reportsOf_append, reportsOf_cons, episodesAt_append,
      h.reportsOf_before hp rfl hb, Message.deltas?, List.nil_append]
    simp [episodesAt_cons]
  have hopen : r ∉ g.left := h.open_of_episode hi (p := sender) (by rw [hid, hfirst]; simp)
  have hbound := h.named.bound r id (by rw [idOf?_eq hi, hid]) (by rw [placeOf?_eq hi, hip]) hopen
  exact ⟨rfl, r, i, hi, hid, hip, hr, hbound, hopen, hfirst⟩

/-- The root adds the earliest report of a place; the accounts of other scopes are not concerned. -/
theorem Consistent.sound_merge (h : Consistent w g limbo arrived) (hc : Changes w w' r i j)
    (hid : i.id = some id) (hip : i.place = id.home) (hr : i.remoteId? = none)
    {before after : List (Packet (Message β))} {sender : PlaceId} {deltas : List Int}
    (hp : w.net.packets = before ++ ⟨sender, id.home, .report id deltas⟩ :: after)
    (hb : ∀ q ∈ before, q.dest = id.home → q.sender ≠ sender)
    (hfirst : w.episodes g sender (some id) = ⟨sender, Counters.slot deltas⟩ ::
      (episodesAt sender (reportsOf (some id) (after ++ g.lost)) ++ w.current sender (some id)))
    (hnet : w'.net.packets = before ++ after)
    (htally : j.counters.tally j.place = i.counters.tally i.place + Counters.slot deltas) :
    ∀ t x, w'.instance? t = some x → x.remoteId? = none → (w'.account g t x).Sound := by
  intro t x hx hxr
  have hout : w'.outstanding g t = w.outstanding g t := by
    funext k
    unfold outstanding
    rw [hc.steady.unitsAt, hc.steady.tasksAt]
  have hcur : ∀ q id?, w'.current q id? = w.current q id? := fun q id? =>
    hc.current h.tidy q id? fun _ _ => hr
  rw [hc.new] at hx
  split_ifs at hx with htr
  · cases hx
    subst htr
    refine (h.sound t i hc.old hr).merge (p := sender) (e := ⟨sender, Counters.slot deltas⟩)
      (hid ▸ hfirst : w.episodes g sender i.id = _) hc.place htally ?_ (fun q hq => ?_) hout
    · show w'.episodes g sender j.id = _
      unfold episodes
      rw [hcur, hc.id, hid, hnet]
      simp only [List.append_assoc, reportsOf_append, episodesAt_append,
        h.reportsOf_before hp rfl hb, List.nil_append]
    · show w'.episodes g q j.id = w.episodes g q i.id
      unfold episodes
      rw [hcur, hc.id, hid, hnet, hp]
      simp [Message.deltas?, episodesAt_cons, Ne.symm hq]
  · refine (h.sound t x hx hxr).congr rfl rfl (funext fun q => ?_) hout
    have hne : some id ≠ x.id := fun hxid => htr (h.named.unique t r id
      (by rw [idOf?_eq hx, ← hxid]) (by rw [idOf?_eq hc.old, hid])
      (by rw [placeOf?_eq hx, Instance.remoteId?_eq_none.mp hxr id hxid.symm])
      (by rw [placeOf?_eq hc.old, hip]))
    show w'.episodes g q x.id = w.episodes g q x.id
    unfold episodes
    rw [hcur, hnet, hp]
    simp [Message.deltas?, hne]

/-- The accounts after the root has added the report. -/
theorem Consistent.merged (h : Consistent w g limbo arrived) (hc : Changes w w' r i j)
    (hr : i.remoteId? = none) (hopen : r ∉ g.left)
    {before after : List (Packet (Message β))} {sender dest : PlaceId} {deltas : List Int}
    (hp : w.net.packets = before ++ ⟨sender, dest, .report id deltas⟩ :: after)
    (hnet : w'.net = { w.net with packets := before ++ after }) (htidy : Tidy w' g.held)
    (hexact : j.counters.Exact)
    (hsound : ∀ t x, w'.instance? t = some x → x.remoteId? = none → (w'.account g t x).Sound) :
    Consistent w' g limbo arrived := by
  have hjr : j.remoteId? = none := (Instance.remoteId?_congr hc.place hc.id).trans hr
  refine h.change hc.new htidy (hc.steady.named h.named fun pk hpk => .inl ?_) (fun _ => .inl)
    (fun _ => .inl) (fun _ _ hm => hm) (fun _ => hexact) (fun id' hx => nomatch hjr.symm.trans hx)
    hsound (fun t x k hx hxr => ?_) (fun _ hl _ => hl) (fun hl => absurd hl hopen)
    (by rw [hnet]; exact h.lost)
  · rw [hnet] at hpk
    rw [hp]
    simp only [List.mem_append, List.mem_cons] at hpk ⊢
    tauto
  · have hw : ∀ y, w.instance? t = some y → y.remoteId? = none →
        w.unitsAt t k g.spawned = w.tasksAt t k g.told + w.tasksAt t k g.held +
          carriedAt y.id k (before ++ after ++ g.astray ++ arrived) + w.unitsAt t k limbo :=
      fun y hy hyr => by
        have := h.whereabouts t y k hy hyr
        rw [hp] at this
        simp only [carriedAt_append, carriedAt_cons, Message.carried, ite_self, zero_add] at this ⊢
        omega
    rw [hc.steady.unitsAt, hc.steady.tasksAt, hnet]
    rw [hc.new] at hx
    split_ifs at hx with htr
    · cases hx
      subst htr
      rw [hc.id]
      exact hw i hc.old hr
    · exact hw x hx hxr

/-- A report arrives, and the root adds it to its tallies. -/
theorem Consistent.merge (h : Consistent w g limbo arrived) {before after : List (Packet (Message β))}
    {sender dest : PlaceId} {deltas : List Int}
    (hp : w.net.packets = before ++ ⟨sender, dest, .report id deltas⟩ :: after)
    (hb : ∀ q ∈ before, q.dest = dest → q.sender ≠ sender) :
    Consistent ((w.withPackets (before ++ after)).receiveReport dest id deltas) g limbo arrived := by
  obtain ⟨rfl, r, i, hi, hid, hip, hr, hbound, hopen, hfirst⟩ := h.root_of_report hp hb
  have hi' : (w.withPackets (before ++ after)).instance? r = some i := hi
  have htidy₀ : Tidy (w.withPackets (before ++ after)) g.held := h.tidy.congr rfl rfl
  have htidy := htidy₀.update (fun x hx => by cases hi'.symm.trans hx; exact hr) deltas
  rw [update_eq hi'] at htidy
  rw [receiveReport_root hi' hbound]
  obtain ⟨hexact, htally⟩ :=
    Counters.update_spec (h.exact r i hi hr) i.place deltas (w.withPackets (before ++ after)).known
  generalize i.counters.update i.place deltas (w.withPackets (before ++ after)).known = out
    at htidy hexact htally ⊢
  have hc : Changes w ((w.withPackets (before ++ after)).setInstance r (i.retire out.1 out.2)) r i
      (i.retire out.1 out.2) := ⟨hi, instance?_setInstance hi' _, rfl, rfl, rfl⟩
  exact h.merged hc hr hopen hp rfl htidy hexact
    (h.sound_merge hc hid hip hr hp hb hfirst rfl (funext htally))

end World

end Quiescence
