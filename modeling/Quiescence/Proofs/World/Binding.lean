/-
# Which instance a place binds

An instance away from home counts the tasks it has accepted. It is bound to its
identity as long as it counts any, and gives the identity up with the report of
the last one; the next task may then find another instance, or find this one
through a handle resolved long before.

`Tidy w held` is what relates the three tables of this: the counts of the
instances, their flags, and the registries of the places. `held` is the record
of what was accepted and not ended: one entry for each task and instance.

* `Tidy.setInstance`, `Tidy.rebind`: an instance changes and its binding does
  not, or both do.
* `Tidy.spawn`, `Tidy.tell`, `Tidy.submit`, and so on: each operation keeps a
  world tidy.
* `Tidy.submit_held`, `Tidy.submit_of_bound`: an instance that holds a task
  accepts another, and so does one that is bound, as one just resolved is
  (`Tidy.resolve_spec`).
-/
import Mathlib.Data.Multiset.AddSub
import Mathlib.Data.Multiset.Count
import Quiescence.Proofs.Tally
import Quiescence.Proofs.World.Lookup

namespace Quiescence

namespace World

variable {ν : Type → Type} {β : Type} {w w' : World ν β} {held held' : Multiset Serial}
  {s t : Serial} {i j : Instance} {id : GlobalId}

/-- The place that the registry of a place is of. -/
def tableHome? (w : World ν β) (p : PlaceId) : Option PlaceId := (w.table? p).map (·.here)

/-- There are tables for the place. -/
def Built (w : World ν β) (p : PlaceId) : Prop := w.tableHome? p = some p

/-- What holds of the instances and registries, where `held` lists the tasks accepted and not ended,
by the instance that accepted them. -/
structure Tidy (w : World ν β) (held : Multiset Serial) : Prop where
  /-- An instance away from home is flagged when its place binds it. -/
  flag : ∀ s i id, w.instance? s = some i → i.remoteId? = some id →
    (i.bound = true ↔ w.bound? i.place id = some (.scope s))
  /-- It counts the tasks it holds. -/
  count : ∀ s i id, w.instance? s = some i → i.remoteId? = some id →
    i.counters.count = held.count s
  /-- It is bound while it holds one. -/
  busy : ∀ s i id, w.instance? s = some i → i.remoteId? = some id → s ∈ held → i.bound = true
  /-- What is bound is an instance at the place, of the scope with that identity. -/
  registered : ∀ p id b, w.bound? p id = some b →
    ∃ s i, b = .scope s ∧ w.instance? s = some i ∧ i.place = p ∧ i.id = some id
  made : ∀ s ∈ held, (w.instance? s).isSome
  built : ∀ s i, w.instance? s = some i → w.Built i.place
  tables : ∀ p q, w.tableHome? p = some q → q = p

/-! ### Places with tables -/

theorem Built.table {p : PlaceId} (h : w.Built p) : ∃ r, w.table? p = some r ∧ r.here = p := by
  unfold Built tableHome? at h
  rw [Option.map_eq_some_iff] at h
  exact h

theorem tableHome?_modifyIdentities (w : World ν β) (p : PlaceId)
    (f : Registry Binding → Registry Binding) (hf : ∀ r, w.table? p = some r → (f r).here = r.here) :
    (w.modifyIdentities p f).tableHome? = w.tableHome? := by
  funext q
  unfold tableHome?
  rw [table?_modifyIdentities]
  split_ifs with hq
  · subst hq
    cases h : w.table? q with
    | none => rfl
    | some r => simp [hf r h]
  · rfl

theorem tableHome?_unbind (w : World ν β) (p : PlaceId) (id : GlobalId) (s : Serial) :
    (w.unbind p id s).tableHome? = w.tableHome? := by
  refine tableHome?_modifyIdentities w p _ fun r _ => ?_
  unfold Registry.removeIf
  split
  · split_ifs <;> rfl
  · rfl

theorem bound?_put {p : PlaceId} (hp : w.Built p) (q : PlaceId) (id' : GlobalId) (b : Binding) :
    (w.modifyIdentities p fun r => r.put id b).bound? q id' =
      if q = p ∧ id' = id then some b else w.bound? q id' := by
  obtain ⟨r, hr, -⟩ := hp.table
  rw [bound?_modifyIdentities]
  by_cases hq : q = p
  · subst hq
    simp [bound?_eq, hr, Registry.get?_put]
  · simp [hq]

/-! ### Changes of one instance -/

namespace Tidy

/-- Only the instances and the registries matter. -/
theorem congr (h : Tidy w held) (hi : w'.instances = w.instances) (ht : w'.table? = w.table?) :
    Tidy w' held := by
  have hinst : w'.instance? = w.instance? := by
    funext s
    unfold instance?
    rw [hi]
  have hbound : w'.bound? = w.bound? := by
    funext p id
    rw [bound?_eq, bound?_eq, ht]
  have hhome : w'.tableHome? = w.tableHome? := by
    funext p
    unfold tableHome?
    rw [ht]
  refine
    { flag := ?_, count := ?_, busy := ?_, registered := ?_, made := ?_, built := ?_, tables := ?_ }
  · rw [hinst, hbound]; exact h.flag
  · rw [hinst]; exact h.count
  · rw [hinst]; exact h.busy
  · rw [hinst, hbound]; exact h.registered
  · rw [hinst]; exact h.made
  · unfold Built; rw [hinst, hhome]; exact h.built
  · rw [hhome]; exact h.tables

theorem alike (h : Tidy w held) (ha : Alike w w') : Tidy w' held := h.congr ha.instances ha.tables

/-- An instance changes and its binding does not. -/
theorem setInstance (h : Tidy w held) (hi : w.instance? s = some i) (hp : j.place = i.place)
    (hid : ∀ id, i.id = some id → j.id = some id) (hr : j.remoteId? = i.remoteId?)
    (hb : j.bound = i.bound)
    (ho : ∀ t, t ≠ s → held'.count t = held.count t)
    (hc : ∀ id, i.remoteId? = some id →
      j.counters.count = held'.count s ∧ (s ∈ held' → i.bound = true)) :
    Tidy (w.setInstance s j) held' := by
  have hmem : ∀ t, t ≠ s → t ∈ held' → t ∈ held := fun t ht hm => by
    rw [← Multiset.one_le_count_iff_mem] at hm ⊢
    rwa [← ho t ht]
  refine
    { flag := fun t x id hx hid => ?_
      count := fun t x id hx hid => ?_
      busy := fun t x id hx hid hm => ?_
      registered := fun p id b hbd => ?_
      made := fun t hm => ?_
      built := fun t x hx => ?_
      tables := h.tables }
  · rw [instance?_setInstance hi] at hx
    split_ifs at hx with hts
    · cases hx
      subst hts
      rw [hb, hp]
      exact h.flag t i id hi (hr ▸ hid)
    · exact h.flag t x id hx hid
  · rw [instance?_setInstance hi] at hx
    split_ifs at hx with hts
    · cases hx
      subst hts
      exact (hc id (hr ▸ hid)).1
    · rw [ho t hts]
      exact h.count t x id hx hid
  · rw [instance?_setInstance hi] at hx
    split_ifs at hx with hts
    · cases hx
      subst hts
      rw [hb]
      exact (hc id (hr ▸ hid)).2 hm
    · exact h.busy t x id hx hid (hmem t hts hm)
  · obtain ⟨t, x, rfl, hx, hxp, hxi⟩ := h.registered p id b hbd
    by_cases hts : t = s
    · subst hts
      obtain rfl : i = x := Option.some.inj (hi.symm.trans hx)
      exact ⟨t, j, rfl, by rw [instance?_setInstance hi, if_pos rfl], hp.trans hxp, hid id hxi⟩
    · exact ⟨t, x, rfl, by rw [instance?_setInstance hi, if_neg hts]; exact hx, hxp, hxi⟩
  · rw [instance?_setInstance hi]
    split_ifs with hts
    · rfl
    · exact h.made t (hmem t hts hm)
  · rw [instance?_setInstance hi] at hx
    split_ifs at hx with hts
    · cases hx
      rw [hp]
      exact h.built s i hi
    · exact h.built t x hx

/-- An instance at home changes. -/
theorem setHome (h : Tidy w held) (hi : w.instance? s = some i) (hp : j.place = i.place)
    (hid : j.id = i.id) (hb : j.bound = i.bound) (hr : i.remoteId? = none)
    (ho : ∀ t, t ≠ s → held'.count t = held.count t) : Tidy (w.setInstance s j) held' :=
  h.setInstance hi hp (fun _ h => hid.trans h) (Instance.remoteId?_congr hp hid) hb ho fun id hid => by
    rw [hr] at hid
    cases hid

/-- An instance changes in nothing that the tables are about. -/
theorem setQuiet (h : Tidy w held) (hi : w.instance? s = some i) (hp : j.place = i.place)
    (hid : j.id = i.id) (hb : j.bound = i.bound)
    (hc : ∀ id, i.remoteId? = some id → j.counters.count = i.counters.count) :
    Tidy (w.setInstance s j) held :=
  h.setInstance hi hp (fun _ h => hid.trans h) (Instance.remoteId?_congr hp hid) hb (fun _ _ => rfl)
    fun id hr =>
    ⟨(hc id hr).trans (h.count s i id hi hr), h.busy s i id hi hr⟩

/-- An instance away from home changes or is made, and the identity is bound to it or given up. No
other instance of the place may have had it. -/
theorem rebind (h : Tidy w held) (hj : j.remoteId? = some id)
    (hs : ∀ i, w.instance? s = some i → i.place = j.place ∧ i.remoteId? = some id)
    (hfree : ∀ b, w.bound? j.place id = some b → b = .scope s)
    (hinst : ∀ t, w'.instance? t = if t = s then some j else w.instance? t)
    (hbound : ∀ q id', w'.bound? q id' = if q = j.place ∧ id' = id then
      (if j.bound then some (.scope s) else none) else w.bound? q id')
    (hhome : w'.tableHome? = w.tableHome?) (hbuilt : w.Built j.place)
    (ho : ∀ t, t ≠ s → held'.count t = held.count t)
    (hc : j.counters.count = held'.count s) (hbusy : s ∈ held' → j.bound = true) :
    Tidy w' held' := by
  have hmem : ∀ t, t ≠ s → t ∈ held' → t ∈ held := fun t ht hm => by
    rw [← Multiset.one_le_count_iff_mem] at hm ⊢
    rwa [← ho t ht]
  refine
    { flag := fun t x id' hx hid => ?_
      count := fun t x id' hx hid => ?_
      busy := fun t x id' hx hid hm => ?_
      registered := fun p id' b hbd => ?_
      made := fun t hm => ?_
      built := fun t x hx => ?_
      tables := by rw [hhome]; exact h.tables }
  · rw [hinst] at hx
    split_ifs at hx with hts
    · cases hx
      obtain rfl : id = id' := Option.some.inj (hj.symm.trans hid)
      rw [hbound, if_pos ⟨rfl, rfl⟩, hts]
      cases j.bound <;> simp
    · rw [hbound, h.flag t x id' hx hid]
      split_ifs with hq hb
      · obtain ⟨hq1, rfl⟩ := hq
        rw [hq1]
        constructor
        · exact fun hb' => absurd (Binding.scope.inj (hfree _ hb')) hts
        · exact fun hb' => absurd (Binding.scope.inj (Option.some.inj hb')).symm hts
      · obtain ⟨hq1, rfl⟩ := hq
        rw [hq1]
        constructor
        · exact fun hb' => absurd (Binding.scope.inj (hfree _ hb')) hts
        · rintro ⟨⟩
      · rfl
  · rw [hinst] at hx
    split_ifs at hx with hts
    · cases hx
      rw [hts]
      exact hc
    · rw [ho t hts]
      exact h.count t x id' hx hid
  · rw [hinst] at hx
    split_ifs at hx with hts
    · cases hx
      exact hbusy (hts ▸ hm)
    · exact h.busy t x id' hx hid (hmem t hts hm)
  · rw [hbound] at hbd
    split_ifs at hbd with hq hb
    · obtain ⟨rfl, rfl⟩ := hq
      exact ⟨s, j, (Option.some.inj hbd).symm, by rw [hinst, if_pos rfl], rfl,
        (Instance.remoteId?_eq_some.mp hj).1⟩
    · obtain ⟨t, x, rfl, hx, hxp, hxi⟩ := h.registered p id' b hbd
      have hts : t ≠ s := fun hts => by
        subst hts
        obtain ⟨h1, h2⟩ := hs x hx
        exact hq ⟨hxp.symm.trans h1,
          Option.some.inj (hxi.symm.trans (Instance.remoteId?_eq_some.mp h2).1)⟩
      exact ⟨t, x, rfl, by rw [hinst, if_neg hts]; exact hx, hxp, hxi⟩
  · rw [hinst]
    split_ifs with hts
    · rfl
    · exact h.made t (hmem t hts hm)
  · unfold Built
    rw [hhome]
    rw [hinst] at hx
    split_ifs at hx with hts
    · cases hx
      exact hbuilt
    · exact h.built t x hx

/-- An instance is made at its home place. -/
theorem addHome (h : Tidy w held) (hj : j.remoteId? = none) (hb : w.Built j.place) :
    Tidy (w.addInstance j).2 held := by
  have hold : ∀ t x id, (w.addInstance j).2.instance? t = some x → x.remoteId? = some id →
      w.instance? t = some x := fun t x id hx hid => by
    rw [instance?_addInstance] at hx
    split_ifs at hx
    · cases hx
      rw [hj] at hid
      cases hid
    · exact hx
  have hnew : ∀ t x, w.instance? t = some x → (w.addInstance j).2.instance? t = some x :=
    fun t x hx => by
      rw [instance?_addInstance, if_neg (Nat.ne_of_lt (serial_lt hx))]
      exact hx
  refine
    { flag := fun t x id hx hid => h.flag t x id (hold t x id hx hid) hid
      count := fun t x id hx hid => h.count t x id (hold t x id hx hid) hid
      busy := fun t x id hx hid => h.busy t x id (hold t x id hx hid) hid
      registered := fun p id b hbd => ?_
      made := fun t hm => ?_
      built := fun t x hx => ?_
      tables := h.tables }
  · obtain ⟨t, x, hbt, hx, hx'⟩ := h.registered p id b hbd
    exact ⟨t, x, hbt, hnew t x hx, hx'⟩
  · obtain ⟨x, hx⟩ := Option.isSome_iff_exists.mp (h.made t hm)
    rw [hnew t x hx]
    rfl
  · rw [instance?_addInstance] at hx
    split_ifs at hx
    · cases hx
      exact hb
    · exact h.built t x hx

/-- An instance that holds a task is bound. -/
theorem bound_of_held (h : Tidy w held) (hi : w.instance? s = some i) (hr : i.remoteId? = some id)
    (hs : s ∈ held) : w.bound? i.place id = some (.scope s) :=
  (h.flag s i id hi hr).mp (h.busy s i id hi hr hs)

/-- An instance whose count is not zero holds a task. -/
theorem held_of_count (h : Tidy w held) (hi : w.instance? s = some i) (hr : i.remoteId? = some id)
    (hc : i.counters.count ≠ 0) : s ∈ held := by
  rw [h.count s i id hi hr] at hc
  exact Multiset.count_ne_zero.mp (by exact_mod_cast hc)

/-- A new instance holds nothing yet. -/
theorem not_held_new (h : Tidy w held) : w.instances.length ∉ held := fun hm => by
  have := h.made _ hm
  rw [instance?_length] at this
  cases this

/-- At home, an instance is bound to its identity or gives it up. -/
theorem rootBinding (h : Tidy w held) (hi : w'.instances = w.instances)
    (hb : ∀ q id, id.home ≠ q → w'.bound? q id = w.bound? q id)
    (hr : ∀ q id b, w'.bound? q id = some b → id.home = q →
      ∃ s i, b = .scope s ∧ w.instance? s = some i ∧ i.place = q ∧ i.id = some id)
    (hh : w'.tableHome? = w.tableHome?) : Tidy w' held := by
  have hinst : w'.instance? = w.instance? := by
    funext s
    unfold instance?
    rw [hi]
  refine
    { flag := fun s x id hx hxi => ?_
      count := by rw [hinst]; exact h.count
      busy := by rw [hinst]; exact h.busy
      registered := fun p id b hbd => ?_
      made := by rw [hinst]; exact h.made
      built := by unfold Built; rw [hinst, hh]; exact h.built
      tables := by rw [hh]; exact h.tables }
  · rw [hb _ _ (Instance.remoteId?_eq_some.mp hxi).2]
    exact h.flag s x id (hinst ▸ hx) hxi
  · rw [hinst]
    by_cases hne : id.home = p
    · exact hr p id b hbd hne
    · exact h.registered p id b (hb p id hne ▸ hbd)

end Tidy

/-! ### Acceptance -/

/-- An instance away from home refuses a task when another has its identity. -/
theorem Tidy.submit_eq_false_iff (h : Tidy w held) (hi : w.instance? s = some i)
    (hr : i.remoteId? = some id) :
    (w.submit s).1 = false ↔
      i.bound = false ∧ ∃ b, b ≠ .scope s ∧ w.bound? i.place id = some b := by
  cases hb : i.bound with
  | true => simp [submit_bound hi hr hb]
  | false =>
    cases hbd : w.bound? i.place id with
    | none => simp [submit_rebinds hi hr hb hbd]
    | some b =>
      have hne : b ≠ .scope s := fun hbs => by
        have := (h.flag s i id hi hr).mpr (hbd.trans (congrArg some hbs))
        rw [hb] at this
        cases this
      simp [submit_refuses hi hr hb hbd, hne]

/-- A refused task changes nothing. -/
theorem submit_refused (hs : (w.submit s).1 = false) : (w.submit s).2 = w := by
  unfold World.submit at hs ⊢
  split
  · rfl
  · rename_i i hi
    simp only [hi] at hs
    split
    · rfl
    · rename_i id hr
      simp only [hr] at hs
      split
      · rename_i hb
        simp [hb] at hs
      · rename_i hb
        simp only [hb] at hs
        split
        · rfl
        · rename_i hbd
          simp [hbd] at hs

/-- An instance that holds a task accepts another. -/
theorem Tidy.submit_held (h : Tidy w held) (hs : s ∈ held) : (w.submit s).1 = true := by
  obtain ⟨i, hi⟩ := Option.isSome_iff_exists.mp (h.made s hs)
  cases hr : i.remoteId? with
  | none => rw [submit_home hi hr]
  | some id => rw [submit_bound hi hr (h.busy s i id hi hr hs)]

/-- So does one that is bound, such as one just resolved. -/
theorem Tidy.submit_of_bound (h : Tidy w held) {p : PlaceId} (hb : w.bound? p id = some (.scope s)) :
    (w.submit s).1 = true := by
  obtain ⟨t, i, ht, hi, hp, hid⟩ := h.registered p id _ hb
  cases ht
  cases hr : i.remoteId? with
  | none => rw [submit_home hi hr]
  | some id' =>
    obtain ⟨hid', hne⟩ := Instance.remoteId?_eq_some.mp hr
    obtain rfl : id = id' := Option.some.inj (hid.symm.trans hid')
    rw [submit_bound hi hr ((h.flag s i id hi hr).mpr (hp ▸ hb))]

/-! ### The operations -/

section Operations

/-- Nothing is held where there is no instance and nothing is bound. -/
theorem tidy_start (net : ν (Message β)) (places : ℕ) (kind : ScopeKind) (spins : ℕ)
    (hp : places ≤ UInt32.size) : Tidy (start net places kind spins) 0 := by
  have hinst : ∀ t, (start net places kind spins : World ν β).instance? t = none := fun t => rfl
  have htable : ∀ p r, (start net places kind spins).table? p = some r → r = Registry.empty p := by
    intro p r hr
    simp only [table?, site?, start, List.getElem?_map, Option.map_eq_some_iff] at hr
    obtain ⟨site, ⟨n, hn, rfl⟩, rfl⟩ := hr
    obtain ⟨hlt, rfl⟩ := List.getElem?_eq_some_iff.mp hn
    simp only [List.length_range] at hlt
    simp only [List.getElem_range, Site.fresh]
    congr 1
    rw [← PlaceId.index_inj]
    exact UInt32.toNat_ofNat_of_lt (by omega)
  refine
    { flag := fun t x id hx => by simp [hinst] at hx
      count := fun t x id hx => by simp [hinst] at hx
      busy := fun t x id hx => by simp [hinst] at hx
      registered := fun p id b hb => ?_
      made := fun t hm => absurd hm (Multiset.notMem_zero t)
      built := fun t x hx => by simp [hinst] at hx
      tables := fun p q hq => ?_ }
  · rw [bound?_eq] at hb
    obtain ⟨r, hr, hg⟩ := Option.bind_eq_some_iff.mp hb
    rw [htable p r hr] at hg
    cases hg
  · obtain ⟨r, hr, rfl⟩ := Option.map_eq_some_iff.mp hq
    rw [htable p r hr]
    rfl

theorem Tidy.exit (h : Tidy w held) (hs : ∀ i, w.instance? s = some i → i.remoteId? = none) :
    Tidy (w.exit s) held := by
  cases hi : w.instance? s with
  | none => simpa [World.exit, hi] using h
  | some i =>
    cases hid : i.id with
    | none => simpa [World.exit, hi, hid] using h
    | some id =>
      have hin : id.home = i.place := Instance.remoteId?_eq_none.mp (hs i hi) id hid
      rw [show w.exit s = w.unbind i.place id s by simp [World.exit, hi, hid]]
      refine h.rootBinding rfl (fun q id' hne => ?_) (fun q id' b hb _ => ?_) (tableHome?_unbind ..)
      · rw [bound?_unbind, if_neg]
        exact fun hc => hne (hc.2.1 ▸ hc.1 ▸ hin)
      · rw [bound?_unbind] at hb
        split_ifs at hb
        exact h.registered q id' b hb

theorem Tidy.takeExceptions (h : Tidy w held) (s : Serial) : Tidy (w.takeExceptions s).2 held := by
  cases hi : w.instance? s with
  | none => simpa [World.takeExceptions, hi] using h
  | some i =>
    rw [takeExceptions_eq hi]
    exact h.setQuiet hi rfl rfl rfl fun _ _ => rfl

theorem Tidy.submit (h : Tidy w held) (hs : (w.instance? s).isSome) :
    Tidy (w.submit s).2 (if (w.submit s).1 then s ::ₘ held else held) := by
  obtain ⟨i, hi⟩ := Option.isSome_iff_exists.mp hs
  have ho : ∀ t, t ≠ s → (s ::ₘ held).count t = held.count t := fun t ht =>
    Multiset.count_cons_of_ne ht held
  cases hr : i.remoteId? with
  | none =>
    rw [submit_home hi hr]
    refine { h with
      count := fun t x id hx hid => ?_
      busy := fun t x id hx hid hm => ?_
      made := fun t hm => ?_ }
    · have hts : t ≠ s := fun hts => by
        subst hts
        rw [hi] at hx
        cases hx
        rw [hr] at hid
        cases hid
      rw [if_pos rfl, ho t hts]
      exact h.count t x id hx hid
    · rcases Multiset.mem_cons.mp hm with rfl | hm
      · rw [hi] at hx
        cases hx
        rw [hr] at hid
        cases hid
      · exact h.busy t x id hx hid hm
    · rcases Multiset.mem_cons.mp hm with rfl | hm
      · exact hs
      · exact h.made t hm
  | some id =>
    have hc : i.counters.submitAway.count = (s ::ₘ held).count s := by
      rw [Multiset.count_cons_self]
      push_cast
      rw [← h.count s i id hi hr]
      rfl
    cases hb : i.bound with
    | true =>
      rw [submit_bound hi hr hb]
      exact h.setInstance hi rfl (fun _ hx => hx) (Instance.remoteId?_congr rfl rfl) rfl ho fun id' hid =>
        ⟨hc, fun _ => hb⟩
    | false =>
      cases hbd : w.bound? i.place id with
      | some b =>
        rw [submit_refuses hi hr hb hbd]
        exact h
      | none =>
        rw [submit_rebinds hi hr hb hbd]
        have hr' : Instance.remoteId? { i with counters := i.counters.submitAway, bound := true } =
            some id := (Instance.remoteId?_congr rfl rfl).trans hr
        refine h.rebind hr' (fun x hx => ?_) (fun b hb' => ?_) (fun t => ?_) (fun q id' => ?_) ?_
          (h.built s i hi) ho hc fun _ => rfl
        · rw [hi] at hx
          cases hx
          exact ⟨rfl, hr⟩
        · rw [hbd] at hb'
          cases hb'
        · exact instance?_setInstance hi _ t
        · exact bound?_put (h.built s i hi) q id' _
        · exact tableHome?_modifyIdentities _ _ _ fun _ _ => rfl

variable [Network ν]

theorem Tidy.openScope (h : Tidy w held) {p : PlaceId} (hp : w.Built p) (kind : ScopeKind) :
    Tidy (w.openScope p kind).2 held := h.addHome rfl hp

theorem Tidy.spawn (h : Tidy w held) (s : Serial) (target : PlaceId) :
    Tidy (w.spawn s target) held := by
  cases hi : w.instance? s with
  | none => simpa [World.spawn, hi] using h
  | some i =>
    cases hr : i.remoteId? with
    | none =>
      rw [spawn_home hi hr]
      exact h.setHome hi rfl rfl rfl hr fun _ _ => rfl
    | some id =>
      rw [spawn_away hi hr]
      exact h.setQuiet hi rfl rfl rfl fun _ _ => rfl

theorem Tidy.unspawn (h : Tidy w held) (s : Serial) (target : PlaceId) :
    Tidy (w.unspawn s target) held := by
  cases hi : w.instance? s with
  | none => simpa [World.unspawn, hi] using h
  | some i =>
    cases hr : i.remoteId? with
    | none =>
      rw [unspawn_home hi hr]
      exact h.setHome hi rfl rfl rfl hr fun _ _ => rfl
    | some id =>
      rw [unspawn_away hi hr]
      exact h.setQuiet hi rfl rfl rfl fun _ _ => rfl

theorem Tidy.update (h : Tidy w held) (hs : ∀ i, w.instance? s = some i → i.remoteId? = none)
    (deltas : List Int) : Tidy (w.update s deltas) held := by
  cases hi : w.instance? s with
  | none => simpa [World.update, hi] using h
  | some i =>
    rw [update_eq hi]
    exact h.setHome hi rfl rfl rfl (hs i hi) fun _ _ => rfl

theorem Tidy.addSuppressed (h : Tidy w held) (s : Serial) (f : Failure) :
    Tidy (w.addSuppressed s f) held := by
  cases hi : w.instance? s with
  | none => simpa [World.addSuppressed, hi] using h
  | some i =>
    have ha := alike_retain w s i f
    have hi' : (w.retain s i f).instance? s = some i := by rw [ha.instance?]; exact hi
    have h' := h.alike ha
    cases hr : i.remoteId? with
    | none =>
      rw [addSuppressed_home hi hr]
      exact h'.setHome hi' rfl rfl rfl hr fun _ _ => rfl
    | some id =>
      cases hs : Network.send w.net ⟨i.place, id.home, .failure id f.encode⟩ with
      | ok net =>
        rw [addSuppressed_sent hi hr hs]
        have h'' : Tidy ((w.retain s i f).setInstance s
            { i with counters := i.counters.spawnAway id.home w.known }) held :=
          h'.setQuiet hi' rfl rfl rfl fun _ _ => rfl
        exact h''.congr rfl rfl
      | error e =>
        rw [addSuppressed_refused hi hr hs]
        exact h'.setQuiet hi' rfl rfl rfl fun _ _ => rfl

theorem Tidy.tell (h : Tidy w held)
    (hs : ∀ i id, w.instance? s = some i → i.remoteId? = some id → s ∈ held) :
    Tidy (w.tell s) (held.erase s) := by
  have ho : ∀ t, t ≠ s → (held.erase s).count t = held.count t := fun t ht =>
    Multiset.count_erase_of_ne ht held
  cases hi : w.instance? s with
  | none =>
    have hm : s ∉ held := fun hm => by
      have := h.made s hm
      rw [hi] at this
      cases this
    rw [Multiset.erase_of_notMem hm]
    simpa [World.tell, hi] using h
  | some i =>
    cases hr : i.remoteId? with
    | none =>
      rw [tell_home hi hr]
      exact h.setHome hi rfl rfl rfl hr ho
    | some id =>
      have hm := hs i id hi hr
      have hone : 1 ≤ held.count s := Multiset.one_le_count_iff_mem.mpr hm
      have hc := h.count s i id hi hr
      have he : (held.erase s).count s = held.count s - 1 := Multiset.count_erase_self s held
      by_cases hcount : i.counters.count = 1
      · obtain ⟨deltas, c, hd, -, h0, -⟩ := Counters.tellAway_report i.place w.known hcount
        rw [tell_away_report hi hr hd, report_eq]
        have hr' : Instance.remoteId? { i with counters := c, bound := false } = some id :=
          (Instance.remoteId?_congr rfl rfl).trans hr
        have hbd := h.bound_of_held hi hr hm
        refine h.rebind hr' (fun x hx => ?_) (fun b hb => ?_) (fun t => ?_) (fun q id' => ?_) ?_
          (h.built s i hi) ho ?_ (fun hm' => ?_)
        · rw [hi] at hx
          cases hx
          exact ⟨rfl, hr⟩
        · rw [hbd] at hb
          exact (Option.some.inj hb).symm
        · exact instance?_setInstance hi _ t
        · rw [bound?_unbind]
          by_cases hq : q = i.place ∧ id' = id
          · rw [if_pos ⟨hq.1, hq.2, hbd⟩, if_pos hq]
            rfl
          · rw [if_neg fun hq' => hq ⟨hq'.1, hq'.2.1⟩, if_neg hq]
            rfl
        · exact tableHome?_unbind ..
        · show c.count = _
          omega
        · rw [← Multiset.one_le_count_iff_mem] at hm'
          omega
      · rw [tell_away_quiet hi hr (Counters.tellAway_quiet _ _ hcount)]
        refine h.setInstance hi rfl (fun _ hx => hx) (Instance.remoteId?_congr rfl rfl) rfl ho fun id' hid =>
          ⟨?_, fun _ => h.busy s i id hi hr hm⟩
        show i.counters.count - 1 = _
        omega

/-- Local numbers do not wrap around while there is another one left. -/
theorem toNat_succ_of_lt {n : UInt32} (h : n.toNat + 1 < UInt32.size) :
    (n + 1).toNat = n.toNat + 1 := by
  rw [UInt32.toNat_add]
  exact Nat.mod_eq_of_lt h

/-- The identity of a scope is homed at the place of the instance that first needed it. -/
theorem allocate_home {r r' : Registry Binding} (h : r.allocate = .ok (id, r')) :
    id.home = r.here ∧ id.serial = r.next ∧ r' = { r with next := r.next + 1 } := by
  unfold Registry.allocate at h
  split_ifs at h
  cases h
  exact ⟨rfl, rfl, rfl⟩

/-- A fresh identity makes an instance the root of its scope. -/
theorem Tidy.prepareTransfer (h : Tidy w held) (s : Serial) : Tidy (w.prepareTransfer s).2 held := by
  cases hi : w.instance? s with
  | none => simpa [World.prepareTransfer, hi] using h
  | some i =>
    cases hid : i.id with
    | some id =>
      rw [prepareTransfer_known hi hid]
      exact h
    | none =>
      obtain ⟨r, hr, hhere⟩ := (h.built s i hi).table
      rw [prepareTransfer_fresh hi hid hr]
      cases ha : r.allocate with
      | error e => exact h
      | ok idr =>
        obtain ⟨id, r'⟩ := idr
        obtain ⟨hhome, -, rfl⟩ := allocate_home ha
        have hin : id.home = i.place := hhome.trans hhere
        have hr0 : i.remoteId? = none := Instance.remoteId?_eq_none.mpr fun _ hx => by
          rw [hid] at hx
          cases hx
        have hr1 : Instance.remoteId? { i with id := some id } = none :=
          Instance.remoteId?_eq_none.mpr fun _ hx => Option.some.inj hx ▸ hin
        have h' : Tidy (w.setInstance s { i with id := some id }) held :=
          h.setInstance hi rfl (fun _ hx => by rw [hid] at hx; cases hx) (hr1.trans hr0.symm) rfl
            (fun _ _ => rfl) fun _ hx => by
              rw [hr0] at hx
              cases hx
        have hb : ∀ q id', ((w.setInstance s { i with id := some id }).modifyIdentities i.place fun _ =>
            { r with next := r.next + 1 }.put id (.scope s)).bound? q id' =
              if q = i.place ∧ id' = id then some (.scope s) else w.bound? q id' := by
          intro q id'
          rw [bound?_modifyIdentities, table?_setInstance]
          by_cases hq : q = i.place
          · subst hq
            rw [if_pos rfl, hr, Option.bind_some, Registry.get?_put, bound?_eq, hr]
            simp only [true_and, Option.bind_some]
            rfl
          · rw [if_neg hq, if_neg fun hc => hq hc.1]
            rfl
        refine h'.rootBinding rfl (fun q id' hne => ?_) (fun q id' b hbd _ => ?_)
          (tableHome?_modifyIdentities _ _ _ fun r₂ hr₂ => ?_)
        · rw [hb, if_neg]
          · rfl
          · exact fun hc => hne (hc.2 ▸ hc.1 ▸ hin)
        · rw [hb] at hbd
          split_ifs at hbd with hq
          · obtain ⟨rfl, rfl⟩ := hq
            refine ⟨s, { i with id := some id' }, (Option.some.inj hbd).symm, ?_, rfl, rfl⟩
            rw [instance?_setInstance hi, if_pos rfl]
          · exact h'.registered q id' b hbd
        · rw [table?_setInstance, hr] at hr₂
          cases hr₂
          rfl

/-- Where nothing is bound to the identity, an instance is made and bound to it. -/
theorem Tidy.resolve (h : Tidy w held) {p : PlaceId} (hp : w.Built p) (tok : Token) :
    Tidy (w.resolve tok p).2 held := by
  cases hb : w.bound? p tok.id with
  | some b =>
    obtain ⟨s, i, rfl, -⟩ := h.registered p tok.id b hb
    rw [resolve_bound hb]
    exact h
  | none =>
    by_cases hhome : tok.id.home = p
    · rw [resolve_missing hb hhome]
      exact h
    · rw [resolve_fresh hb hhome]
      have hnew : held.count w.instances.length = 0 := Multiset.count_eq_zero.mpr h.not_held_new
      refine h.rebind (Instance.remoteId?_eq_some.mpr ⟨rfl, hhome⟩) (fun i hi => ?_)
        (fun b hb' => ?_) (instance?_addInstance w _) (fun q id' => ?_) ?_ hp (fun _ _ => rfl) ?_
        fun _ => rfl
      · rw [instance?_length] at hi
        cases hi
      · rw [hb] at hb'
        cases hb'
      · rw [if_pos rfl]
        exact bound?_put hp q id' _
      · exact tableHome?_modifyIdentities _ _ _ fun _ _ => rfl
      · rw [hnew]
        rfl

/-- What is resolved is an instance of the scope at the place, and it is bound there. -/
theorem Tidy.resolve_spec (h : Tidy w held) {p : PlaceId} {tok : Token} (hp : w.Built p)
    (hr : w.resolve tok p = (.ok s, w')) :
    w'.bound? p tok.id = some (.scope s) ∧
      ∃ i, w'.instance? s = some i ∧ i.place = p ∧ i.id = some tok.id := by
  have h' : Tidy w' held := by
    have := h.resolve hp tok
    rwa [hr] at this
  have hbound : w'.bound? p tok.id = some (.scope s) := by
    cases hb : w.bound? p tok.id with
    | some b =>
      obtain ⟨t, i, rfl, -⟩ := h.registered p tok.id b hb
      rw [resolve_bound hb] at hr
      cases hr
      exact hb
    | none =>
      by_cases hhome : tok.id.home = p
      · rw [resolve_missing hb hhome] at hr
        cases hr
      · rw [resolve_fresh hb hhome] at hr
        cases hr
        exact (bound?_put hp p tok.id _).trans (if_pos ⟨rfl, rfl⟩)
  obtain ⟨t, i, ht, hi⟩ := h'.registered p tok.id _ hbound
  cases ht
  exact ⟨hbound, i, hi⟩

end Operations

end World

end Quiescence
