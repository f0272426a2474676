/-
# Identities for the scopes of a task

Before a task crosses, each of its scopes gives a token. An instance that has an
identity gives that one; any other gets one first, once for all the times that
it is listed. No other trace is left (`Christened`).

* `unnamed`, `Spare`: the instances that need an identity; there is one for each.
* `Descended.prepareAll_spec`: all scopes give their tokens.
-/
import Mathlib.Data.Finset.Card
import Quiescence.Proofs.Identities.Lineage

namespace Quiescence

/-- A place apart from its registry. -/
def Site.bare (site : Site) : Site := { site with identities := .empty site.here }

namespace World

variable {ν : Type → Type} {β : Type} {w w' u : World ν β} {g : Lineage} {s t : Serial}
  {i : Instance} {p q : PlaceId} {id : GlobalId} {fs : List Serial}

theorem bare_modifyIdentities (w : World ν β) (p : PlaceId)
    (f : Registry Binding → Registry Binding) :
    (w.modifyIdentities p f).sites.map Site.bare = w.sites.map Site.bare := by
  refine List.ext_getElem? fun k => ?_
  simp only [modifyIdentities, modifySite, List.getElem?_map, List.getElem?_modify]
  cases w.sites[k]? with
  | none => rfl
  | some site =>
    simp only [Option.map_some]
    split_ifs <;> rfl

theorem bare_prepareTransfer [Network ν] (w : World ν β) (s : Serial) :
    (w.prepareTransfer s).2.sites.map Site.bare = w.sites.map Site.bare := by
  unfold World.prepareTransfer
  split
  · rfl
  · split
    · rfl
    · split
      · rfl
      · split
        · rfl
        · exact bare_modifyIdentities ..

/-! ### Who needs an identity -/

/-- The instances of a list that are at a place and have no identity. -/
def unnamed (w : World ν β) (fs : List Serial) (q : PlaceId) : Finset Serial :=
  fs.toFinset.filter fun s => w.idOf? s = none ∧ w.placeOf? s = some q

/-- Every place has an identity left for each listed instance of its own that has none. -/
def Spare (w : World ν β) (fs : List Serial) : Prop :=
  ∀ q n, w.nextOf? q = some n → n.toNat + (w.unnamed fs q).card < UInt32.size

theorem mem_unnamed : t ∈ w.unnamed fs q ↔ t ∈ fs ∧ w.idOf? t = none ∧ w.placeOf? t = some q := by
  simp [unnamed]

theorem unnamed_cons (hs : w.idOf? s ≠ none) (fs : List Serial) (q : PlaceId) :
    w.unnamed (s :: fs) q = w.unnamed fs q := by
  ext t
  rw [mem_unnamed, mem_unnamed, List.mem_cons]
  constructor
  · rintro ⟨rfl | ht, hid, hp⟩
    · exact absurd hid hs
    · exact ⟨ht, hid, hp⟩
  · rintro ⟨ht, h⟩
    exact ⟨.inr ht, h⟩

/-- It is enough if there are as many left as instances are listed. -/
theorem spare_of_length (h : ∀ site ∈ w.sites,
    site.identities.next.toNat + fs.length < UInt32.size) : w.Spare fs := fun q n hn => by
  simp only [nextOf?, table?, site?, Option.map_map, Option.map_eq_some_iff] at hn
  obtain ⟨site, hsite, rfl⟩ := hn
  have hcard : (w.unnamed fs q).card ≤ fs.length :=
    (Finset.card_filter_le ..).trans (List.toFinset_card_le fs)
  have := h site (List.mem_of_getElem? hsite)
  simp only [Function.comp_apply]
  omega

namespace Acquires

/-- Those that need one still are the others. -/
theorem unnamed_erase (h : Acquires w u s i id) (fs : List Serial) (q : PlaceId) :
    u.unnamed fs q = (w.unnamed (s :: fs) q).erase s := by
  ext t
  rw [Finset.mem_erase, mem_unnamed, mem_unnamed, h.idOf?, h.placeOf?, List.mem_cons]
  split_ifs with hts
  · simp [hts]
  · simp [hts]

theorem card_unnamed (h : Acquires w u s i id) (fs : List Serial) (q : PlaceId) :
    (w.unnamed (s :: fs) q).card = (u.unnamed fs q).card + if q = i.place then 1 else 0 := by
  have hp : w.placeOf? s = some i.place := placeOf?_eq h.old
  rw [h.unnamed_erase]
  split_ifs with hq
  · have hs : s ∈ w.unnamed (s :: fs) q :=
      mem_unnamed.mpr ⟨List.mem_cons_self .., (idOf?_eq h.old).trans h.unnamed, hq ▸ hp⟩
    exact (Finset.card_erase_add_one hs).symm
  · have hs : s ∉ w.unnamed (s :: fs) q := fun hm => by
      have := (mem_unnamed.mp hm).2.2
      rw [hp] at this
      exact hq (Option.some.inj this).symm
    rw [Finset.erase_eq_of_notMem hs, add_zero]

theorem spare (h : Acquires w u s i id) (hs : w.Spare (s :: fs)) : u.Spare fs := fun q n hn => by
  have hcard := h.card_unnamed fs q
  rw [h.next] at hn
  split_ifs at hn hcard with hq
  · cases hn
    have := hs q id.serial (hq ▸ h.first)
    rw [h.toNat_succ]
    omega
  · have := hs q n hn
    omega

end Acquires

/-! ### What they have then -/

/-- Each listed instance that had no identity has got a new one of its place, and is bound to it.
Otherwise nothing has changed. -/
structure Christened (fs : List Serial) (w w' : World ν β) : Prop extends Still w w' where
  bare : w'.sites.map Site.bare = w.sites.map Site.bare
  homes : w'.tableHome? = w.tableHome?
  kept : ∀ s, s ∉ fs ∨ w.idOf? s ≠ none → w'.instance? s = w.instance? s
  named : ∀ s i, s ∈ fs → w.instance? s = some i → i.id = none → ∃ id,
    w'.instance? s = some { i with id := some id } ∧ id.home = i.place ∧
      (∀ t, w.idOf? t ≠ some id) ∧ w'.bound? id.home id = some (.scope s)
  bound : ∀ q id, w'.bound? q id = w.bound? q id ∨
    ∃ s ∈ fs, w.idOf? s = none ∧ w'.idOf? s = some id ∧ id.home = q ∧ ∀ t, w.idOf? t ≠ some id
  next : ∀ q n, w.nextOf? q = some n →
    ∃ n', w'.nextOf? q = some n' ∧ n'.toNat = n.toNat + (w.unnamed fs q).card

namespace Christened

theorem nil (w : World ν β) : Christened [] w w where
  toStill := .refl w
  bare := rfl
  homes := rfl
  kept := fun _ _ => rfl
  named := fun _ _ h => by cases h
  bound := fun _ _ => .inl rfl
  next := fun _ n h => ⟨n, h, rfl⟩

/-- An instance that has an identity may be listed as well. -/
theorem known (h : Christened fs w w') (hs : w.idOf? s ≠ none) : Christened (s :: fs) w w' where
  toStill := h.toStill
  bare := h.bare
  homes := h.homes
  kept := fun t ht => h.kept t (ht.imp_left fun hn hm => hn (List.mem_cons_of_mem _ hm))
  named := fun t i ht hi hid => by
    rcases List.mem_cons.mp ht with rfl | ht
    · exact absurd ((idOf?_eq hi).trans hid) hs
    · exact h.named t i ht hi hid
  bound := fun q id => (h.bound q id).imp_right fun ⟨t, ht, hx⟩ => ⟨t, List.mem_cons_of_mem _ ht, hx⟩
  next := by
    intro q n hn
    rw [unnamed_cons hs]
    exact h.next q n hn

/-- An instance gets its identity before all others. -/
theorem acquires (h : Christened fs u w') (ha : Acquires w u s i id) (hst : Still w u)
    (hbare : u.sites.map Site.bare = w.sites.map Site.bare) (hall : w.Allocated) :
    Christened (s :: fs) w w' := by
  have hsn : w.idOf? s = none := (idOf?_eq ha.old).trans ha.unnamed
  have hself : u.idOf? s = some id := by rw [ha.idOf?, if_pos rfl]
  have hother : ∀ t, t ≠ s → u.idOf? t = w.idOf? t ∧ u.instance? t = w.instance? t := fun t ht =>
    ⟨by rw [ha.idOf?, if_neg ht], by rw [ha.instance?, if_neg ht]⟩
  have hkept : w'.instance? s = some { i with id := some id } := by
    rw [h.kept s (.inr (by rw [hself]; exact Option.some_ne_none _)), ha.instance?, if_pos rfl]
  have hfresh : ∀ id', (∀ t, u.idOf? t ≠ some id') → ∀ t, w.idOf? t ≠ some id' := fun id' hu t ht => by
    by_cases hts : t = s
    · rw [hts, hsn] at ht
      cases ht
    · exact hu t ((hother t hts).1.trans ht)
  refine
    { toStill := hst.trans h.toStill
      bare := h.bare.trans hbare
      homes := h.homes.trans ha.homes
      kept := fun t ht => ?_
      named := fun t x ht hx hxid => ?_
      bound := fun q id' => ?_
      next := fun q n hn => ?_ }
  · have hts : t ≠ s := by
      rintro rfl
      exact ht.elim (fun hn => hn (List.mem_cons_self ..)) fun hn => hn hsn
    obtain ⟨hid, hinst⟩ := hother t hts
    rw [← hinst]
    exact h.kept t (ht.imp (fun hn hm => hn (List.mem_cons_of_mem _ hm)) fun hn => hid ▸ hn)
  · by_cases hts : t = s
    · subst hts
      obtain rfl := Option.some.inj (ha.old.symm.trans hx)
      refine ⟨id, hkept, ha.home, ha.fresh hall, ?_⟩
      rcases h.bound id.home id with hb | ⟨r, -, -, -, -, hnew⟩
      · rw [hb, ha.bound, if_pos ⟨ha.home, rfl⟩]
      · exact absurd hself (hnew t)
    · have htfs : t ∈ fs := (List.mem_cons.mp ht).resolve_left hts
      obtain ⟨id', hj, hhome, hnew, hb⟩ := h.named t x htfs ((hother t hts).2.trans hx) hxid
      exact ⟨id', hj, hhome, hfresh id' hnew, hb⟩
  · rcases h.bound q id' with hb | ⟨t, ht, hn, hid, hhome, hnew⟩
    · rw [hb, ha.bound]
      split_ifs with hq
      · obtain ⟨rfl, rfl⟩ := hq
        refine .inr ⟨s, List.mem_cons_self .., hsn, ?_, ha.home, ha.fresh hall⟩
        rw [idOf?, hkept]
        rfl
      · exact .inl rfl
    · have hts : t ≠ s := by
        rintro rfl
        rw [hself] at hn
        cases hn
      exact .inr ⟨t, List.mem_cons_of_mem _ ht, (hother t hts).1 ▸ hn, hid, hhome, hfresh id' hnew⟩
  · have hcard := ha.card_unnamed fs q
    have hnext := ha.next q
    split_ifs at hcard hnext with hq
    · rw [hq, ha.first] at hn
      cases hn
      obtain ⟨n', hn', he⟩ := h.next q _ hnext
      refine ⟨n', hn', ?_⟩
      rw [ha.toNat_succ] at he
      omega
    · obtain ⟨n', hn', he⟩ := h.next q n (hnext.trans hn)
      exact ⟨n', hn', by omega⟩

end Christened

/-- All listed instances give their tokens. -/
theorem Descended.prepareAll_spec [Network ν] (h : Descended w g)
    (hm : ∀ s ∈ fs, (w.instance? s).isSome) (hsp : w.Spare fs) :
    ∃ tokens w', w.prepareAll fs = (.ok tokens, w') ∧ Christened fs w w' := by
  induction fs generalizing w g with
  | nil => exact ⟨[], w, rfl, .nil w⟩
  | cons s fs ih =>
    obtain ⟨i, hi⟩ := Option.isSome_iff_exists.mp (hm s (List.mem_cons_self ..))
    have hm' : ∀ t ∈ fs, (w.instance? t).isSome := fun t ht => hm t (List.mem_cons_of_mem _ ht)
    rcases h.prepareTransfer_spec hi with ⟨id, hid, he⟩ | ⟨n, hid, hn, hfull, -⟩ | ⟨id, u, he, ha⟩
    · have hs : w.idOf? s ≠ none := by
        rw [idOf?_eq hi, hid]
        exact Option.some_ne_none _
      have hsp' : w.Spare fs := fun q n hn => unnamed_cons hs fs q ▸ hsp q n hn
      obtain ⟨tokens, w', he', hc⟩ := ih h hm' hsp'
      exact ⟨⟨id, i.kind⟩ :: tokens, w', by simp only [prepareAll, he, he'], hc.known hs⟩
    · have hs : s ∈ w.unnamed (s :: fs) i.place :=
        mem_unnamed.mpr ⟨List.mem_cons_self .., (idOf?_eq hi).trans hid, placeOf?_eq hi⟩
      have := hsp i.place n hn
      have := Finset.card_pos.mpr ⟨s, hs⟩
      omega
    · have hu := h.acquires ha
      have hmu : ∀ t ∈ fs, (u.instance? t).isSome := fun t ht => by
        rw [ha.instance?]
        split_ifs
        · rfl
        · exact hm' t ht
      obtain ⟨tokens, w', he', hc⟩ := ih hu hmu (ha.spare hsp)
      have hst := still_prepareTransfer w s
      have hbare := bare_prepareTransfer w s
      rw [he] at hst hbare
      exact ⟨⟨id, i.kind⟩ :: tokens, w', by simp only [prepareAll, he, he'],
        hc.acquires ha hst hbare h.handedOut⟩

end World

end Quiescence
