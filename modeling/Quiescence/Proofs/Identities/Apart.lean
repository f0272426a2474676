/-
# Identities tell scopes apart

All instances of a scope have the identity that its root got, and those of two
scopes never have the same. So a token leads to the scope that it was given
for, whoever gave it, and however long ago.

* `Endures`: what becomes of instances and tokens that there are.
* `Descended.resolve_home`, `Descended.resolve_away`: where a token leads.
* `identities_apart`: what holds of identities and tokens in every run.
-/
import Quiescence.Network.Pairwise
import Quiescence.Proofs.Identities.Lineage

namespace Quiescence

namespace World

variable {ν : Type → Type} {β : Type} {w w' : World ν β} {g g' : Lineage} {r s : Serial}
  {i j : Instance} {p : PlaceId} {id : GlobalId} {tok : Token}

/-! ### What lasts -/

/-- Every instance is there, with the place, the kind and the scope it had, and with its identity. -/
structure Endures (w : World ν β) (g : Lineage) (w' : World ν β) (g' : Lineage) : Prop where
  old : ∀ s i, w.instance? s = some i → ∃ j, w'.instance? s = some j ∧ j.place = i.place ∧
    j.kind = i.kind ∧ (∀ id, i.id = some id → j.id = some id) ∧ g'.scope s = g.scope s
  issued : ∀ x ∈ g.issued, x ∈ g'.issued
  ended : ∀ r ∈ g.ended, r ∈ g'.ended

namespace Endures

/-- The instances have kept what they had, and the lineage may have grown. -/
theorem of_instances (h : w'.instance? = w.instance?) (hscope : g'.scope = g.scope)
    (hissued : ∀ x ∈ g.issued, x ∈ g'.issued) (hover : ∀ r ∈ g.ended, r ∈ g'.ended) :
    Endures w g w' g' :=
  ⟨fun s i hi => ⟨i, by rw [h, hi], rfl, rfl, fun _ h => h, by rw [hscope]⟩, hissued, hover⟩

theorem refl (w : World ν β) (g : Lineage) : Endures w g w g :=
  of_instances rfl rfl (fun _ h => h) fun _ h => h

theorem trans {w'' : World ν β} {g'' : Lineage} (h : Endures w g w' g') (h' : Endures w' g' w'' g'') :
    Endures w g w'' g'' := by
  refine ⟨fun s i hi => ?_, fun x hx => h'.issued x (h.issued x hx),
    fun r hr => h'.ended r (h.ended r hr)⟩
  obtain ⟨j, hj, hp, hk, hid, hs⟩ := h.old s i hi
  obtain ⟨k, hk', hp', hkind, hid', hs'⟩ := h'.old s j hj
  exact ⟨k, hk', hp'.trans hp, hkind.trans hk, fun id hx => hid' id (hid id hx), hs'.trans hs⟩

theorem same (h : Same w w') (g : Lineage) : Endures w g w' g := by
  refine ⟨fun s i hi => ?_, fun _ h => h, fun _ h => h⟩
  have hplace : w'.placeOf? s = some i.place := by rw [h.places, placeOf?_eq hi]
  obtain ⟨j, hj, hp⟩ := Option.map_eq_some_iff.mp hplace
  have hkind : w'.kindOf? s = some i.kind := by rw [h.kinds, kindOf?_eq hi]
  rw [kindOf?_eq hj] at hkind
  have hid : w'.idOf? s = i.id := by rw [h.ids, idOf?_eq hi]
  rw [idOf?_eq hj] at hid
  exact ⟨j, hj, hp, Option.some.inj hkind, fun id hx => hid.trans hx, rfl⟩

theorem vacant (w : World ν β) (g : Lineage) (r : Serial) :
    Endures w g w (g.enlist w.instances.length r) :=
  ⟨fun _ i hi => ⟨i, hi, rfl, rfl, fun _ h => h,
    Function.update_of_ne (Nat.ne_of_lt (serial_lt hi)) ..⟩, fun _ h => h, fun _ h => h⟩

theorem joins (h : Joins w w' r j) (g : Lineage) : Endures w g w' (g.enlist w.instances.length r) :=
  ⟨fun s i hi => by
    have hne := Nat.ne_of_lt (serial_lt hi)
    exact ⟨i, by rw [h.instance?, if_neg hne, hi], rfl, rfl, fun _ h => h,
      Function.update_of_ne hne ..⟩, fun _ h => h, fun _ h => h⟩

theorem acquires (h : Acquires w w' s i id) (g : Lineage) :
    Endures w g w' { g with
      issued := (g.scope s, ⟨id, i.kind⟩) :: g.issued
      allocated := (s, id) :: g.allocated } := by
  refine ⟨fun t x hx => ?_, fun _ h => List.mem_cons_of_mem _ h, fun _ h => h⟩
  by_cases hts : t = s
  · subst hts
    obtain rfl := Option.some.inj (h.old.symm.trans hx)
    refine ⟨{ i with id := some id }, by rw [h.instance?, if_pos rfl], rfl, rfl, fun id' hid' => ?_,
      rfl⟩
    rw [h.unnamed] at hid'
    cases hid'
  · exact ⟨x, by rw [h.instance?, if_neg hts, hx], rfl, rfl, fun _ h => h, rfl⟩

end Endures

section Kept

variable [Network ν]

theorem Descended.endures_prepareTransfer (h : Descended w g) (s : Serial) :
    Endures w g (w.prepareTransfer s).2 (g.give s (w.idOf? s).isNone (w.prepareTransfer s).1) := by
  cases hi : w.instance? s with
  | none => simpa [World.prepareTransfer, hi, Lineage.give] using Endures.refl w g
  | some i =>
    rcases h.prepareTransfer_spec hi with ⟨id, hid, he⟩ | ⟨n, -, -, -, he⟩ | ⟨id, w', he, ha⟩
    · rw [he, idOf?_eq hi, hid]
      exact .of_instances rfl rfl (fun _ h => List.mem_cons_of_mem _ h) fun _ h => h
    · rw [he]
      exact .refl w g
    · rw [he, idOf?_eq hi, ha.unnamed]
      exact .acquires ha g

theorem Descended.endures_resolve (h : Descended w g) (hr : (r, tok) ∈ g.issued) (hp : w.Built p) :
    Endures w g (w.resolve tok p).2 (g.enlist w.instances.length r) := by
  rcases h.resolve_spec hr hp with ⟨s, -, he⟩ | ⟨-, -, he⟩ | ⟨w', j, -, -, -, -, he, hj⟩ <;> rw [he]
  · exact .vacant w g r
  · exact .vacant w g r
  · exact .joins hj g

theorem Descended.endures (h : Descended w g) (hs : Passing w g w' g') : Endures w g w' g' := by
  cases hs with
  | openScope p kind hp =>
    obtain ⟨j, hj⟩ := joins_openScope hp kind
    exact .joins hj g
  | prepareTransfer s => exact h.endures_prepareTransfer s
  | resolve r tok p hr hp => exact h.endures_resolve hr hp
  | accept r tok p hr hp =>
    have h' := h.endures_resolve hr hp
    unfold World.accept
    rcases hres : w.resolve tok p with ⟨_ | s, w₁⟩ <;> rw [hres] at h'
    · exact h'
    · exact h'.trans (.same (same_submit w₁ s) _)
  | submit s => exact .same (same_submit w s) g
  | tell s => exact .same (same_tell w s) g
  | exit s i hi hr =>
    refine .of_instances ?_ rfl (fun _ h => h) fun _ h => List.mem_cons_of_mem _ h
    funext t
    simp only [World.exit, hi]
    split <;> rfl
  | spawn s target => exact .same (same_spawn w s target) g
  | unspawn s target => exact .same (same_unspawn w s target) g
  | update s deltas => exact .same (same_update w s deltas) g
  | addSuppressed s f => exact .same (same_addSuppressed w s f) g
  | takeExceptions s => exact .same (same_takeExceptions w s) g
  | elsewhere _ hi ht => exact .same (.of_tables hi ht) g

theorem Descended.endures_follows (h : Descended w g) (hf : Follows w g w' g') : Endures w g w' g' := by
  induction hf with
  | refl => exact .refl w g
  | step hf hs ih => exact ih.trans ((h.follows hf).endures hs)

/-! ### Where tokens lead -/

/-- At its home place a token leads to the root, until the scope is over. -/
theorem Descended.resolve_home (h : Descended w g) (hr : (r, tok) ∈ g.issued) :
    w.resolve tok tok.id.home =
      if r ∈ g.ended then (.error (.unknownIdentity tok.id), w) else (.ok r, w) := by
  have hb := h.bound r tok (h.issued r tok hr)
  split_ifs at hb ⊢
  · exact resolve_missing hb rfl
  · exact resolve_bound hb

/-- At any other place it leads to an instance of its scope there, that may be new. -/
theorem Descended.resolve_away (h : Descended w g) (hr : (r, tok) ∈ g.issued) (hp : w.Built p)
    (hne : p ≠ tok.id.home) : ∃ s j w', w.resolve tok p = (.ok s, w') ∧ w'.instance? s = some j ∧
      j.place = p ∧ j.id = some tok.id ∧ j.kind = tok.kind ∧
      (g.enlist w.instances.length r).scope s = r := by
  have hroot := h.issued r tok hr
  rcases h.resolve_spec hr hp with ⟨s, hb, he⟩ | ⟨hhome, -⟩ | ⟨w', j, -, hjp, hjid, hjk, he, hj⟩
  · obtain ⟨t, ht, hid, hplace⟩ := h.registered p tok.id _ hb
    cases ht
    obtain ⟨i, hi, hip⟩ := Option.map_eq_some_iff.mp hplace
    have hs := h.headed s tok.id i.kind hid (kindOf?_eq hi)
    have hsr : g.scope s = r := h.unique hs hroot rfl
    rw [hsr] at hs
    rw [idOf?_eq hi] at hid
    refine ⟨s, i, w, he, hi, hip, hid, congrArg Token.kind (hs.token hroot), ?_⟩
    exact (Function.update_of_ne (Nat.ne_of_lt (serial_lt hi)) ..).trans hsr
  · exact absurd hhome.symm hne
  · exact ⟨_, j, w', he, by rw [hj.instance?, if_pos rfl], hjp, hjid, hjk, Function.update_self ..⟩

/-- In every run of a number of places: the instances of a scope give one token only; no instance gets
an identity twice, and no identity is given twice; the numbers of identities tell them apart, and two
instances have the same one when they are of one scope. A token leads home to the root that got its
identity, and to no instance once that has given it up; elsewhere it leads to an instance of its scope
at the place. No instance changes its identity, or its scope. -/
theorem identities_apart {net : ν (Message β)} {places : ℕ} {kind : ScopeKind} {spins : ℕ}
    (hplaces : places ≤ UInt32.size) (h : Follows (start net places kind spins) .start w g) :
    (∀ r tok tok', (r, tok) ∈ g.issued → (r, tok') ∈ g.issued → tok = tok') ∧
    ((g.allocated.map (·.1)).Nodup ∧ (g.allocated.map (·.2)).Nodup) ∧
    (Function.Injective GlobalId.gid ∧ ∀ id : GlobalId, id.gid < UInt64.size) ∧
    (∀ s t i j id id', w.instance? s = some i → w.instance? t = some j → i.id = some id →
      j.id = some id' → (id.gid = id'.gid ↔ g.scope s = g.scope t)) ∧
    (∀ r tok, (r, tok) ∈ g.issued →
      (∃ i, w.instance? r = some i ∧ i.id = some tok.id ∧ i.place = tok.id.home ∧
        i.kind = tok.kind) ∧
      ((r, tok.id) ∈ g.allocated ∧ g.scope r = r) ∧
      (r ∉ g.ended → w.resolve tok tok.id.home = (.ok r, w)) ∧
      ∀ p, w.Built p → p ≠ tok.id.home → ∃ s j w', w.resolve tok p = (.ok s, w') ∧
        w'.instance? s = some j ∧ j.place = p ∧ j.id = some tok.id ∧ j.kind = tok.kind ∧
        (g.enlist w.instances.length r).scope s = r) ∧
    ∀ w' g', Follows w g w' g' →
      (∀ s i, w.instance? s = some i → ∃ j, w'.instance? s = some j ∧ j.place = i.place ∧
        j.kind = i.kind ∧ (∀ id, i.id = some id → j.id = some id) ∧ g'.scope s = g.scope s) ∧
      ∀ r tok, (r, tok) ∈ g.issued → r ∈ g.ended →
        w'.resolve tok tok.id.home = (.error (.unknownIdentity tok.id), w') := by
  have hd : Descended w g := (descended_start net places kind spins hplaces).follows h
  have hnodup : (g.allocated.map (·.1)).Nodup := by
    refine hd.once.of_map.map_on fun x hx y hy hxy => Prod.ext hxy ?_
    have hxid := ((hd.allocated x.1 x.2).mp hx).1
    have hyid := ((hd.allocated y.1 y.2).mp hy).1
    rw [hxy] at hxid
    exact Option.some.inj (hxid.symm.trans hyid)
  refine ⟨fun r tok tok' hr hr' => (hd.issued r tok hr).token (hd.issued r tok' hr'),
    ⟨hnodup, hd.once⟩, ⟨fun a b => GlobalId.gid_inj.mp, fun id => ?_⟩,
    fun s t i j id id' hi hj hid hid' => ?_, fun r tok hr => ⟨?_, ⟨?_, ?_⟩, fun ho => ?_, fun p hp hne => ?_⟩,
    fun w' g' hf => ⟨(hd.endures_follows hf).old, fun r tok hr ho => ?_⟩⟩
  · have hhome := id.home.index_lt
    have hserial := id.serial.toNat_lt
    simp only [GlobalId.gid, UInt32.size, UInt64.size] at *
    omega
  · have hs := hd.headed s id i.kind (by rw [idOf?_eq hi, hid]) (kindOf?_eq hi)
    have ht := hd.headed t id' j.kind (by rw [idOf?_eq hj, hid']) (kindOf?_eq hj)
    rw [GlobalId.gid_inj]
    refine ⟨fun he => hd.unique hs ht he, fun he => ?_⟩
    rw [he] at hs
    exact congrArg Token.id (hs.token ht)
  · exact (hd.issued r tok hr).instance?
  · obtain ⟨hid, hp, -⟩ := hd.issued r tok hr
    exact (hd.allocated r tok.id).mpr ⟨hid, hp⟩
  · exact hd.scope_root (hd.issued r tok hr)
  · rw [hd.resolve_home hr, if_neg ho]
  · exact hd.resolve_away hr hp hne
  · have hk := hd.endures_follows hf
    rw [(hd.follows hf).resolve_home (hk.issued _ hr), if_pos (hk.ended r ho)]

end Kept

/-- The token of the first scope of place 0. -/
def firstToken : Token := ⟨⟨⟨0⟩, 0⟩, .plain⟩

/-- The token of the first scope of place 1. -/
def secondToken : Token := ⟨⟨⟨1⟩, 0⟩, .debug⟩

/-- A scope is opened at each of two places, and a task of each crosses to the other place. The first
scope has given its token at both places when its task ends and it is over. -/
def crossed : World Pairwise Unit :=
  let opened := ((start (Pairwise.empty 2) 2 .plain 0).openScope ⟨0⟩ .plain).2.openScope ⟨1⟩ .debug
  let named := (opened.2.prepareTransfer 0).2
  let first := ((named.accept firstToken ⟨1⟩).2.prepareTransfer 2).2
  let both := ((first.prepareTransfer 1).2.resolve secondToken ⟨0⟩).2
  (both.tell 2).exit 0

/-- The first token leads nowhere at home now, and to a new instance at place 1; the second leads to
the root of its scope, which was opened second. -/
theorem identities_apart_crossed : ∃ g, Follows (start (Pairwise.empty 2) 2 .plain 0) .start crossed g ∧
    (0, firstToken) ∈ g.issued ∧ 0 ∈ g.ended ∧ (1, secondToken) ∈ g.issued ∧ 1 ∉ g.ended ∧
    crossed.resolve firstToken ⟨0⟩ = (.error (.unknownIdentity firstToken.id), crossed) ∧
    crossed.resolve secondToken ⟨1⟩ = (.ok 1, crossed) ∧
    ∃ s j w', crossed.resolve firstToken ⟨1⟩ = (.ok s, w') ∧ w'.instance? s = some j ∧
      j.place = ⟨1⟩ ∧ j.id = some firstToken.id ∧ j.kind = .plain := by
  have h0 : Follows (start (Pairwise.empty 2) 2 .plain 0 : World Pairwise Unit) .start _ _ := .refl
  have h1 := (h0.step (.openScope _ _ ⟨0⟩ .plain rfl)).step (.openScope _ _ ⟨1⟩ .debug rfl)
  have h2 := h1.step (.prepareTransfer _ _ 0)
  have h3 := h2.step (.accept _ _ 0 firstToken ⟨1⟩ (List.mem_cons_self ..) rfl)
  have h4 := (h3.step (.prepareTransfer _ _ 2)).step (.prepareTransfer _ _ 1)
  have h5 := h4.step (.resolve _ _ 1 secondToken ⟨0⟩ (List.mem_cons_self ..) rfl)
  have h6 := (h5.step (.tell _ _ 2)).step (.exit _ _ 0 _ rfl rfl)
  obtain ⟨-, -, -, -, hlead, hlater⟩ := identities_apart (by decide) h6
  have hfirst := List.mem_cons_of_mem (1, secondToken)
    (List.mem_cons_self (a := (0, firstToken)) (l := [(0, firstToken)]))
  obtain ⟨s, j, w', he, hj, hp, hid, hk, -⟩ :=
    (hlead 0 firstToken hfirst).2.2.2 ⟨1⟩ rfl (by decide)
  exact ⟨_, h6, hfirst, List.mem_cons_self .., List.mem_cons_self .., by decide,
    (hlater _ _ .refl).2 0 firstToken hfirst (List.mem_cons_self ..),
    (hlead 1 secondToken (List.mem_cons_self ..)).2.2.1 (by decide), s, j, w', he, hj, hp, hid, hk⟩

end World

end Quiescence
