/-
# What every use keeps in order

The accounts of a scope are right if tasks are registered with instances that
hold one. Less is kept by all operations, in any order, on any instances, also
where places bind identities to something else, or no more: each identity has
one root, none is given out twice, and what is bound to it as a scope is one of
its instances (`Orderly`).

All that an operation does is made of a few `Moves`: one instance changes
(`Amends`), or gets an identity (`Roots`), an instance is made (`Settles`), a
scope is opened (`Opens`), or no instance is concerned (`Refits`).

* `Moved.orderly`: moves keep the order.
* `Moved.lasts`: instances stay where they are, of the scopes they are of.
* `Operates`, `Operated`: the operations, and all that they lead to.
* `Operates.moved`: operations are made of moves.
-/
import Mathlib.Logic.Relation
import Quiescence.Proofs.Runs

namespace Quiescence

namespace World

variable {β : Type} {w w' w'' : World Pairwise β} {g g' : Ledger β}
  {limbo : Multiset (Serial × PlaceId)} {arrived : List (Packet (Message β))} {r s t : Serial}
  {i j : Instance} {p target : PlaceId} {id : GlobalId} {fs : List Serial} {tok : Token}
  {tokens : List Token} {v : ℕ → ℤ} {sent : List (Packet (Message β))}

/-- Some instance has the identity. -/
def InUse (w : World Pairwise β) (id : GlobalId) : Prop := ∃ s, w.idOf? s = some id

/-- The message is about identities in use, and goes home if it is for a root. -/
def Posted (w : World Pairwise β) (pk : Packet (Message β)) : Prop :=
  (∀ id, pk.content.Concerns id → w.InUse id) ∧ ∀ id, pk.content.rootId? = some id → pk.dest = id.home

structure Orderly (w : World Pairwise β) : Prop where
  exact : ∀ s i, w.instance? s = some i → i.remoteId? = none → i.counters.Exact
  unique : ∀ r r' id, w.idOf? r = some id → w.idOf? r' = some id →
    w.placeOf? r = some id.home → w.placeOf? r' = some id.home → r = r'
  allocated : w.Allocated
  /-- What is bound as a scope is an instance of it at the place. -/
  registered : ∀ p id s, w.bound? p id = some (.scope s) →
    ∃ i, w.instance? s = some i ∧ i.place = p ∧ i.id = some id
  posted : ∀ pk ∈ w.net.packets, w.Posted pk
  built : ∀ s i, w.instance? s = some i → w.Built i.place
  tables : ∀ p q, w.tableHome? p = some q → q = p

theorem Consistent.orderly (h : Consistent w g limbo arrived) : Orderly w where
  exact := h.exact
  unique := h.named.unique
  allocated := h.named.allocated
  registered p id s hb := by
    obtain ⟨t, i, ht, hi, hp, hid⟩ := h.tidy.registered p id _ hb
    cases ht
    exact ⟨i, hi, hp, hid⟩
  posted pk hpk := by
    have ha := h.named.addressed pk (by simp [hpk])
    have hused : ∀ {id}, w.Rooted id → w.InUse id := fun ⟨r, hr, _⟩ => ⟨r, hr⟩
    unfold Addressed at ha
    unfold Posted
    split at ha
    · rename_i tokens body hc
      rw [hc]
      exact ⟨fun _ ⟨tok, ht, hid⟩ => hid ▸ hused (ha tok ht), nofun⟩
    all_goals
      rename_i hc
      rw [hc]
      refine ⟨fun _ hid => hid ▸ hused ha.1, fun _ hid => ?_⟩
      cases hid
      exact ha.2.1
  built := h.tidy.built
  tables := h.tidy.tables

theorem Orderly.built_of_site (h : Orderly w) {site : Site} (hs : w.site? p = some site) :
    w.Built p := by
  have ht : w.tableHome? p = some site.identities.here := by simp [tableHome?, table?, hs]
  rw [Built, ht, h.tables p _ ht]

/-- Two instances of a scope at its home are one. -/
theorem Orderly.away_of_akin (h : Orderly w) (hi : w.instance? r = some i)
    (hr : i.remoteId? = none) (hj : w.instance? s = some j) (hne : s ≠ r) (hak : w.Akin r s) :
    ∃ id, i.id = some id ∧ j.remoteId? = some id := by
  obtain ⟨hsome, heq⟩ := hak.resolve_left hne
  obtain ⟨id, hid⟩ := Option.isSome_iff_exists.mp hsome
  have hri : w.idOf? r = some id := heq ▸ hid
  have hii : i.id = some id := by rwa [idOf?_eq hi] at hri
  have hji : j.id = some id := by rwa [idOf?_eq hj] at hid
  refine ⟨id, hii, Instance.remoteId?_eq_some.mpr ⟨hji, fun hp => hne ?_⟩⟩
  exact h.unique s r id hid hri (by rw [placeOf?_eq hj, hp])
    (by rw [placeOf?_eq hi, Instance.remoteId?_eq_none.mp hr id hii])

/-- The root is the one instance of its scope at home. -/
theorem Orderly.eq_root (h : Orderly w) (hi : w.instance? r = some i) (hr : i.remoteId? = none) :
    w.Akin r s ∧ w.placeOf? s = some i.place ↔ s = r := by
  refine ⟨fun ⟨ha, hp⟩ => ?_, ?_⟩
  · by_contra hne
    obtain ⟨j, hj, hjp⟩ := Option.map_eq_some_iff.mp hp
    obtain ⟨id, hid, hjr⟩ := h.away_of_akin hi hr hj hne ha
    refine (Instance.remoteId?_eq_some.mp hjr).2 ?_
    rw [hjp, Instance.remoteId?_eq_none.mp hr id hid]
  · rintro rfl
    exact ⟨.refl w s, placeOf?_eq hi⟩

/-! ### Moves -/

/-- One instance changes, its counters by `v`, with what it sends home counted. -/
structure Amends (w w' : World Pairwise β) (s : Serial) (i j : Instance) (v : ℕ → ℤ)
    (sent : List (Packet (Message β))) : Prop where
  old : w.instance? s = some i
  new : ∀ t, w'.instance? t = if t = s then some j else w.instance? t
  place : j.place = i.place
  id : j.id = i.id
  home : i.remoteId? = none → i.counters.Exact →
    j.counters.Exact ∧ j.counters.tally i.place = i.counters.tally i.place + v
  away : ∀ id, i.remoteId? = some id →
    totalDelta (reportsOf (some id) sent) + j.counters.unreported = i.counters.unreported + v
  packets : w'.net.packets = w.net.packets ++ sent
  /-- What is sent is for the root of its scope. -/
  sent : ∀ pk ∈ sent, ∃ id, i.remoteId? = some id ∧ pk.content.rootId? = some id ∧ pk.dest = id.home
  next : w'.nextOf? = w.nextOf?
  homes : w'.tableHome? = w.tableHome?
  bound : ∀ q id t, w'.bound? q id = some (.scope t) →
    w.bound? q id = some (.scope t) ∨ (t = s ∧ q = i.place ∧ i.id = some id)

/-- A scope is opened. -/
structure Opens (w w' : World Pairwise β) (j : Instance) : Prop extends Adds w w' j where
  id : j.id = none
  exact : j.counters.Exact
  built : w.Built j.place
  bound : w'.bound? = w.bound?

/-- No instance is concerned. -/
structure Refits (w w' : World Pairwise β) : Prop where
  instances : w'.instances = w.instances
  packets : ∀ pk ∈ w'.net.packets, pk ∈ w.net.packets ∨ w.Posted pk
  next : ∀ q n, w.nextOf? q = some n → ∃ n', w'.nextOf? q = some n' ∧ n.toNat ≤ n'.toNat
  homes : w'.tableHome? = w.tableHome?
  bound : ∀ q id t, w'.bound? q id = some (.scope t) → w.bound? q id = some (.scope t)

inductive Moves (w w' : World Pairwise β) : Prop where
  | amends (s : Serial) (i j : Instance) (v : ℕ → ℤ) (sent : List (Packet (Message β))) :
      Amends w w' s i j v sent → Moves w w'
  | roots (s : Serial) (i : Instance) (id : GlobalId) : Roots w w' s i id → Moves w w'
  | settles (tok : Token) (p : PlaceId) (j : Instance) :
      Settles w w' tok p j → w.InUse tok.id → w.Built p → Moves w w'
  | opens (j : Instance) : Opens w w' j → Moves w w'
  | refits : Refits w w' → Moves w w'

/-- Any number of moves. -/
def Moved : World Pairwise β → World Pairwise β → Prop := Relation.ReflTransGen Moves

theorem Moved.refl (w : World Pairwise β) : Moved w w := Relation.ReflTransGen.refl

theorem Moved.trans (h : Moved w w') (h' : Moved w' w'') : Moved w w'' :=
  Relation.ReflTransGen.trans h h'

theorem Moves.moved (h : Moves w w') : Moved w w' := Relation.ReflTransGen.single h

theorem Amends.namesakes (h : Amends w w' s i j v sent) : Namesakes w w' :=
  namesakes_of_set h.old h.new h.place h.id

theorem Amends.remoteId? (h : Amends w w' s i j v sent) : j.remoteId? = i.remoteId? :=
  Instance.remoteId?_congr h.place h.id

/-- The instance is at its place, with its identity. -/
theorem Amends.present (h : Amends w w' s i j v sent) {x : Instance}
    (hx : w.instance? t = some x) :
    ∃ y, w'.instance? t = some y ∧ y.place = x.place ∧ y.id = x.id := by
  rw [h.new]
  split_ifs with hts
  · subst hts
    obtain rfl : i = x := Option.some.inj (h.old.symm.trans hx)
    exact ⟨j, rfl, h.place, h.id⟩
  · exact ⟨x, hx, rfl, rfl⟩

theorem Refits.instance? (h : Refits w w') : w'.instance? = w.instance? := by
  funext s
  simp [World.instance?, h.instances]

theorem Refits.namesakes (h : Refits w w') : Namesakes w w' := by
  constructor <;> funext s
  · simp [World.idOf?, h.instance?]
  · simp [World.placeOf?, h.instance?]

theorem refits_of_alike (h : Alike w w') : Refits w w' where
  instances := h.instances
  packets := fun pk hpk => .inl (h.net ▸ hpk)
  next := fun q n hn => ⟨n, by rw [nextOf?, h.tables]; exact hn, le_rfl⟩
  homes := by unfold tableHome?; rw [h.tables]
  bound := fun q id t hb => h.bound? ▸ hb

/-- The network is exchanged. -/
theorem refits_net (net : Pairwise (Message β))
    (hp : ∀ pk ∈ net.packets, pk ∈ w.net.packets ∨ w.Posted pk) :
    Refits w { w with net } :=
  ⟨rfl, hp, fun _ n hn => ⟨n, hn, le_rfl⟩, rfl, fun _ _ _ hb => hb⟩

/-! ### What lasts -/

/-- Instances stay where they are, with the identities they have. One that had none may have got one
that was not in use. -/
structure Lasts (w w' : World Pairwise β) : Prop where
  old : ∀ s i, w.instance? s = some i → ∃ j, w'.instance? s = some j ∧ j.place = i.place ∧
    (j.id = i.id ∨ i.id = none ∧ ∃ id, j.id = some id ∧ id.home = i.place ∧ ¬ w.InUse id)
  homes : w'.tableHome? = w.tableHome?

namespace Lasts

theorem idOf? (h : Lasts w w') (hs : w.idOf? s = some id) : w'.idOf? s = some id := by
  obtain ⟨i, hi, hid⟩ := Option.bind_eq_some_iff.mp hs
  obtain ⟨j, hj, -, hcase⟩ := h.old s i hi
  rw [idOf?_eq hj]
  rcases hcase with heq | ⟨hnone, -⟩
  · rw [heq, hid]
  · rw [hid] at hnone
    cases hnone

theorem inUse (h : Lasts w w') (hid : w.InUse id) : w'.InUse id := by
  obtain ⟨s, hs⟩ := hid
  exact ⟨s, h.idOf? hs⟩

theorem posted (h : Lasts w w') {pk : Packet (Message β)} (hpk : w.Posted pk) : w'.Posted pk :=
  ⟨fun id hid => h.inUse (hpk.1 id hid), hpk.2⟩

theorem built (h : Lasts w w') (hp : w.Built p) : w'.Built p := by
  unfold Built
  rw [h.homes]
  exact hp

theorem refl (w : World Pairwise β) : Lasts w w :=
  ⟨fun _ i hi => ⟨i, hi, rfl, .inl rfl⟩, rfl⟩

theorem trans (h : Lasts w w') (h' : Lasts w' w'') : Lasts w w'' := by
  refine ⟨fun s i hi => ?_, h'.homes.trans h.homes⟩
  obtain ⟨j, hj, hp, hcase⟩ := h.old s i hi
  obtain ⟨k, hk, hp', hcase'⟩ := h'.old s j hj
  refine ⟨k, hk, hp'.trans hp, ?_⟩
  rcases hcase' with heq' | ⟨hnone', id, hid, hhome, hfresh⟩
  · rcases hcase with heq | ⟨hnone, id, hid, hhome, hfresh⟩
    · exact .inl (heq'.trans heq)
    · exact .inr ⟨hnone, id, heq'.trans hid, hhome, hfresh⟩
  · rcases hcase with heq | ⟨-, id', hid', -⟩
    · exact .inr ⟨heq ▸ hnone', id, hid, hhome.trans hp, fun hu => hfresh (h.inUse hu)⟩
    · rw [hid'] at hnone'
      cases hnone'

theorem of_namesakes (h : Namesakes w w') (hhomes : w'.tableHome? = w.tableHome?) :
    Lasts w w' := by
  refine ⟨fun s i hi => ?_, hhomes⟩
  have hplace : w'.placeOf? s = some i.place := by rw [h.places, placeOf?_eq hi]
  obtain ⟨j, hj, hp⟩ := Option.map_eq_some_iff.mp hplace
  exact ⟨j, hj, hp, .inl (by rw [← idOf?_eq hj, h.ids, idOf?_eq hi])⟩

theorem of_adds (h : Adds w w' j) : Lasts w w' :=
  ⟨fun _ i hi => ⟨i, h.old hi, rfl, .inl rfl⟩, h.homes⟩

theorem placeOf? (h : Lasts w w') (hs : w.placeOf? s = some p) : w'.placeOf? s = some p := by
  obtain ⟨i, hi, hp⟩ := Option.map_eq_some_iff.mp hs
  obtain ⟨j, hj, hjp, -⟩ := h.old s i hi
  rw [placeOf?_eq hj, hjp, hp]

/-- The instance at home is there still. -/
theorem root (h : Lasts w w') (hi : w.instance? r = some i) (hr : i.remoteId? = none) :
    ∃ j, w'.instance? r = some j ∧ j.remoteId? = none ∧ j.place = i.place := by
  obtain ⟨j, hj, hp, hcase⟩ := h.old r i hi
  refine ⟨j, hj, ?_, hp⟩
  rcases hcase with heq | ⟨-, id, hid, hhome, -⟩
  · rw [Instance.remoteId?_congr hp heq, hr]
  · refine Instance.remoteId?_eq_none.mpr fun id' hid' => ?_
    rw [hid] at hid'
    cases hid'
    exact hhome.trans hp.symm

/-- An identity that was in use is that of the instances that had it. -/
theorem idOf?_iff (h : Lasts w w') (hs : (w.instance? s).isSome) (hid : w.InUse id) :
    w'.idOf? s = some id ↔ w.idOf? s = some id := by
  refine ⟨fun hs' => ?_, h.idOf?⟩
  obtain ⟨i, hi⟩ := Option.isSome_iff_exists.mp hs
  obtain ⟨j, hj, -, hcase⟩ := h.old s i hi
  rw [idOf?_eq hj] at hs'
  rcases hcase with heq | ⟨-, id', hid', -, hfresh⟩
  · rw [idOf?_eq hi, ← heq, hs']
  · obtain rfl : id' = id := Option.some.inj (hid'.symm.trans hs')
    exact absurd hid hfresh

/-- Instances of one scope stay so, and those of two scopes too: where both have got an identity,
they have got it at home. -/
theorem akin (h : Lasts w w') (ho : Orderly w') (hr : (w.instance? r).isSome)
    (hs : (w.instance? s).isSome) : w'.Akin r s ↔ w.Akin r s := by
  have hboth : ∀ {a : Serial} {id : GlobalId}, (w.instance? a).isSome → w'.idOf? a = some id →
      w.InUse id ∨ w'.placeOf? a = some id.home := fun {a id} ha hid => by
    obtain ⟨i, hi⟩ := Option.isSome_iff_exists.mp ha
    obtain ⟨j, hj, hp, hcase⟩ := h.old a i hi
    rw [idOf?_eq hj] at hid
    rcases hcase with heq | ⟨-, id', hid', hhome, -⟩
    · exact .inl ⟨a, by rw [idOf?_eq hi, ← heq, hid]⟩
    · obtain rfl : id' = id := Option.some.inj (hid'.symm.trans hid)
      exact .inr (by rw [placeOf?_eq hj, hp, hhome])
  constructor
  · rintro (rfl | ⟨hsome, heq⟩)
    · exact .refl w s
    · obtain ⟨id, hid⟩ := Option.isSome_iff_exists.mp hsome
      have hrid : w'.idOf? r = some id := heq ▸ hid
      by_cases hu : w.InUse id
      · rw [akin_iff ((h.idOf?_iff hs hu).mp hid)]
        exact (h.idOf?_iff hr hu).mp hrid
      · exact .inl (ho.unique s r id hid hrid ((hboth hs hid).resolve_left hu)
          ((hboth hr hrid).resolve_left hu))
  · exact fun hak => hak.of_ids fun _ _ => h.idOf?

end Lasts

theorem Moves.lasts (h : Moves w w') : Lasts w w' := by
  cases h with
  | amends s i j v sent ha => exact .of_namesakes ha.namesakes ha.homes
  | roots s i id hc =>
    refine ⟨fun t x hx => ?_, hc.homes⟩
    rw [hc.new]
    split_ifs with hts
    · obtain rfl : i = x := Option.some.inj (hc.old.symm.trans (hts ▸ hx))
      exact ⟨_, rfl, rfl, .inr ⟨hc.unnamed, id, rfl, hc.home, fun ⟨t, ht⟩ => hc.fresh t ht⟩⟩
    · exact ⟨x, hx, rfl, .inl rfl⟩
  | settles tok p j ha => exact .of_adds ha.toAdds
  | opens j ha => exact .of_adds ha.toAdds
  | refits hf => exact .of_namesakes hf.namesakes hf.homes

theorem Moved.lasts (h : Moved w w') : Lasts w w' := by
  induction h with
  | refl => exact .refl w
  | tail _ hm ih => exact ih.trans hm.lasts

/-! ### The order is kept -/

theorem Allocated.mono (h : w.Allocated) (hid : ∀ s id, w'.idOf? s = some id → w.InUse id)
    (hnext : ∀ q n, w.nextOf? q = some n → ∃ n', w'.nextOf? q = some n' ∧ n.toNat ≤ n'.toNat) :
    w'.Allocated := fun s id hs => by
  obtain ⟨t, ht⟩ := hid s id hs
  obtain ⟨n, hn, hlt⟩ := h t id ht
  obtain ⟨n', hn', hle⟩ := hnext _ n hn
  exact ⟨n', hn', lt_of_lt_of_le hlt hle⟩

theorem Amends.orderly (h : Amends w w' s i j v sent) (ho : Orderly w) : Orderly w' := by
  have hn := h.namesakes
  refine
    { exact := fun t x hx hr => ?_
      unique := by rw [hn.ids, hn.places]; exact ho.unique
      allocated := ho.allocated.congr hn.ids h.next
      registered := fun q id t hb => ?_
      posted := fun pk hpk => ?_
      built := fun t x hx => ?_
      tables := by rw [h.homes]; exact ho.tables }
  · rw [h.new] at hx
    split_ifs at hx
    · cases hx
      have hr := h.remoteId?.symm.trans hr
      exact (h.home hr (ho.exact s i h.old hr)).1
    · exact ho.exact t x hx hr
  · obtain ⟨x, hx, hp, hid⟩ : ∃ x, w.instance? t = some x ∧ x.place = q ∧ x.id = some id := by
      rcases h.bound q id t hb with hb | ⟨rfl, rfl, hid⟩
      · exact ho.registered q id t hb
      · exact ⟨i, h.old, rfl, hid⟩
    obtain ⟨y, hy, hyp, hyid⟩ := h.present hx
    exact ⟨y, hy, hyp.trans hp, hyid.trans hid⟩
  · refine (Lasts.of_namesakes hn h.homes).posted ?_
    rw [h.packets] at hpk
    rcases List.mem_append.mp hpk with hpk | hpk
    · exact ho.posted pk hpk
    · obtain ⟨id', hr, hroot, hdest⟩ := h.sent pk hpk
      refine ⟨fun id hm => ?_, fun id hm => ?_⟩
      · obtain rfl : id' = id := hm.rootId hroot
        exact ⟨s, by rw [idOf?_eq h.old, (Instance.remoteId?_eq_some.mp hr).1]⟩
      · obtain rfl : id' = id := Option.some.inj (hroot.symm.trans hm)
        exact hdest
  · unfold Built
    rw [h.homes]
    rw [h.new] at hx
    split_ifs at hx
    · cases hx
      rw [h.place]
      exact ho.built s i h.old
    · exact ho.built t x hx

/-- The identity is one that nobody has used. -/
theorem Roots.orderly (hc : Roots w w' s i id) (ho : Orderly w) : Orderly w' := by
  have hl : Lasts w w' := (Moves.roots s i id hc).lasts
  have hback : ∀ t x, w'.instance? t = some x → ∃ y, w.instance? t = some y ∧
      x.place = y.place ∧ x.counters = y.counters ∧ (x.remoteId? = none → y.remoteId? = none) :=
    fun t x hx => by
      rw [hc.new] at hx
      split_ifs at hx with hts
      · cases hx
        refine ⟨i, hts ▸ hc.old, rfl, rfl, fun _ => ?_⟩
        rw [Instance.remoteId?, hc.unnamed]
        rfl
      · exact ⟨x, hx, rfl, rfl, fun hr => hr⟩
  refine
    { exact := fun t x hx hr => ?_
      unique := fun t t' id' ht ht' hp hp' => ?_
      allocated := fun t id' ht => ?_
      registered := fun q id' t hb => ?_
      posted := fun pk hpk => hl.posted (ho.posted pk (hc.net ▸ hpk))
      built := fun t x hx => ?_
      tables := by rw [hc.homes]; exact ho.tables }
  · obtain ⟨y, hy, -, hyc, hyr⟩ := hback t x hx
    rw [hyc]
    exact ho.exact t y hy (hyr hr)
  · rw [hc.placeOf?] at hp hp'
    rw [hc.idOf?] at ht ht'
    split_ifs at ht ht' with h1 h2 h2
    · exact h1.trans h2.symm
    · cases ht
      exact absurd ht' (hc.fresh t')
    · cases ht'
      exact absurd ht (hc.fresh t)
    · exact ho.unique t t' id' ht ht' hp hp'
  · rw [hc.idOf?] at ht
    split_ifs at ht
    · cases ht
      exact hc.used
    · obtain ⟨n, hn, hlt⟩ := ho.allocated t id' ht
      obtain ⟨n', hn', hle⟩ := hc.next _ n hn
      exact ⟨n', hn', lt_of_lt_of_le hlt hle⟩
  · rw [hc.bound] at hb
    split_ifs at hb with hq
    · cases hb
      exact ⟨{ i with id := some id }, by rw [hc.new, if_pos rfl], hq.1.symm, by rw [hq.2]⟩
    · obtain ⟨x, hx, hp, hid⟩ := ho.registered q id' t hb
      obtain ⟨y, hy, hyp, -⟩ := hl.old t x hx
      refine ⟨y, hy, hyp.trans hp, ?_⟩
      rw [← idOf?_eq hy]
      exact hl.idOf? (by rw [idOf?_eq hx, hid])
  · obtain ⟨y, hy, hyp, -⟩ := hback t x hx
    rw [hyp]
    exact hl.built (ho.built t y hy)

/-- One instance more, that is not a root of a scope that was there. -/
theorem Adds.orderly (ha : Adds w w' j) (ho : Orderly w)
    (hid : ∀ id, j.id = some id → w.InUse id ∧ j.place ≠ id.home)
    (hx : j.remoteId? = none → j.counters.Exact) (hp : w.Built j.place)
    (hb : ∀ q id t, w'.bound? q id = some (.scope t) → w.bound? q id = some (.scope t) ∨
      (t = w.instances.length ∧ q = j.place ∧ j.id = some id)) : Orderly w' := by
  have hl := Lasts.of_adds ha
  have hjn : w'.instance? w.instances.length = some j := by rw [ha.new, if_pos rfl]
  have hroot : ∀ t id, w'.idOf? t = some id → w'.placeOf? t = some id.home →
      w.idOf? t = some id ∧ w.placeOf? t = some id.home := fun t id ht hp => by
    by_cases hne : t = w.instances.length
    · subst hne
      rw [idOf?_eq hjn] at ht
      rw [placeOf?_eq hjn] at hp
      exact absurd (Option.some.inj hp) (hid id ht).2
    · rw [← ha.idOf? hne, ← ha.placeOf? hne]
      exact ⟨ht, hp⟩
  refine
    { exact := fun t x ht hr => ?_
      unique := fun t t' id ht ht' hp hp' => ?_
      allocated := ho.allocated.mono (fun t id ht => ?_) fun q n hn => ⟨n, by rwa [ha.next], le_rfl⟩
      registered := fun q id t hbt => ?_
      posted := fun pk hpk => hl.posted (ho.posted pk (ha.net ▸ hpk))
      built := fun t x ht => hl.built ?_
      tables := by rw [ha.homes]; exact ho.tables }
  · rw [ha.new] at ht
    split_ifs at ht
    · cases ht
      exact hx hr
    · exact ho.exact t x ht hr
  · obtain ⟨h1, h2⟩ := hroot t id ht hp
    obtain ⟨h1', h2'⟩ := hroot t' id ht' hp'
    exact ho.unique t t' id h1 h1' h2 h2'
  · by_cases hne : t = w.instances.length
    · subst hne
      rw [idOf?_eq hjn] at ht
      exact (hid id ht).1
    · exact ⟨t, by rwa [← ha.idOf? hne]⟩
  · rcases hb q id t hbt with hbt | ⟨rfl, rfl, hjid⟩
    · obtain ⟨x, hx, hxp, hxid⟩ := ho.registered q id t hbt
      exact ⟨x, ha.old hx, hxp, hxid⟩
    · exact ⟨j, hjn, rfl, hjid⟩
  · rw [ha.new] at ht
    split_ifs at ht
    · cases ht
      exact hp
    · exact ho.built t x ht

theorem Refits.orderly (h : Refits w w') (ho : Orderly w) : Orderly w' := by
  have hn := h.namesakes
  exact
    { exact := by rw [h.instance?]; exact ho.exact
      unique := by rw [hn.ids, hn.places]; exact ho.unique
      allocated := ho.allocated.mono (fun s id hs => ⟨s, by rwa [← hn.ids]⟩) h.next
      registered := fun q id s hb => by
        rw [h.instance?]
        exact ho.registered q id s (h.bound q id s hb)
      posted := fun pk hpk => (Lasts.of_namesakes hn h.homes).posted
        ((h.packets pk hpk).elim (ho.posted pk) id)
      built := by unfold Built; rw [h.instance?, h.homes]; exact ho.built
      tables := by rw [h.homes]; exact ho.tables }

theorem Moves.orderly (h : Moves w w') (ho : Orderly w) : Orderly w' := by
  cases h with
  | amends s i j v sent ha => exact ha.orderly ho
  | roots s i id hc => exact hc.orderly ho
  | settles tok p j ha hu hp =>
    refine ha.toAdds.orderly ho (fun id hid => ?_) (fun hr => ?_) (ha.place ▸ hp)
      fun q id t hb => ?_
    · obtain rfl : tok.id = id := Option.some.inj (ha.id.symm.trans hid)
      exact ⟨hu, by rw [ha.place]; exact Ne.symm ha.home⟩
    · rw [ha.away] at hr
      cases hr
    · rw [ha.bound] at hb
      split_ifs at hb with hq
      · cases hb
        exact .inr ⟨rfl, hq.1.trans ha.place.symm, by rw [ha.id, hq.2]⟩
      · exact .inl hb
  | opens j ha =>
    refine ha.toAdds.orderly ho (fun id hid => ?_) (fun _ => ha.exact) ha.built
      fun q id t hb => .inl (ha.bound ▸ hb)
    rw [ha.id] at hid
    cases hid
  | refits hf => exact hf.orderly ho

theorem Moved.orderly (h : Moved w w') (ho : Orderly w) : Orderly w' := by
  induction h with
  | refl => exact ho
  | tail _ hm ih => exact hm.orderly ih

end World

end Quiescence
