/-
# The history of scopes and their identities

A scope gets an identity when the first token for it is asked for, and tokens
carry it to the other places. There they are resolved in any order and at any
time, instances made by one token are found by another, and those that gave
the identity up take it again.

A `Lineage` is the history of this: which instance opened the scope of each
instance, who got an identity, which tokens were given, and which scopes are
over. No program has it.

* `Passing`: the operations, with what they add to the lineage; tokens that are
  resolved have been given. `Follows`: any number of them.
* `Joins`: an instance is made. For one that gets an identity there is `Acquires`.
* `Descended`: what the instances and the registries have to do with the
  lineage. `Descended.follows`: it is so in all that the operations lead to.
-/
import Quiescence.Proofs.Identities.Same

namespace Quiescence

/-- The history of the scopes in a run. A scope is known by the instance that opened it. -/
structure Lineage where
  /-- The scope of an instance. -/
  scope : Serial → Serial
  /-- The instances that got an identity, with the identity. -/
  allocated : List (Serial × GlobalId)
  /-- The tokens that were given, each with the scope of the instance that gave it. -/
  issued : List (Serial × Token)
  /-- The scopes that are over: their root has given up the identity. -/
  ended : List Serial

namespace Lineage

/-- Nothing has happened. -/
def start : Lineage := ⟨id, [], [], []⟩

/-- If there is an instance `n` now, it is of the scope of `r`. -/
def enlist (g : Lineage) (n r : Serial) : Lineage :=
  { g with scope := Function.update g.scope n r }

/-- An instance has been asked for its token, and may have got its identity by that. -/
def give (g : Lineage) (s : Serial) (unnamed : Bool) : Except TransferError Token → Lineage
  | .error _ => g
  | .ok tok =>
    { g with
      issued := (g.scope s, tok) :: g.issued
      allocated := if unnamed then (s, tok.id) :: g.allocated else g.allocated }

end Lineage
namespace World

variable {ν : Type → Type} {β : Type}

section Steps

variable [Network ν]

/-- One operation. Tokens that are resolved or accepted have been given before, by whatever instance
of their scope; a handle may be used at any time, and only the root of a scope gives up its identity
for good. -/
inductive Passing : World ν β → Lineage → World ν β → Lineage → Prop where
  | openScope (w g p kind) : w.Built p →
      Passing w g (w.openScope p kind).2 (g.enlist w.instances.length w.instances.length)
  | prepareTransfer (w g s) :
      Passing w g (w.prepareTransfer s).2 (g.give s (w.idOf? s).isNone (w.prepareTransfer s).1)
  | resolve (w g r tok p) : (r, tok) ∈ g.issued → w.Built p →
      Passing w g (w.resolve tok p).2 (g.enlist w.instances.length r)
  | accept (w g r tok p) : (r, tok) ∈ g.issued → w.Built p →
      Passing w g (w.accept tok p).2 (g.enlist w.instances.length r)
  | submit (w g s) : Passing w g (w.submit s).2 g
  | tell (w g s) : Passing w g (w.tell s) g
  | exit (w g s i) : w.instance? s = some i → i.role = .root →
      Passing w g (w.exit s) { g with ended := g.scope s :: g.ended }
  | spawn (w g s target) : Passing w g (w.spawn s target) g
  | unspawn (w g s target) : Passing w g (w.unspawn s target) g
  | update (w g s deltas) : Passing w g (w.update s deltas) g
  | addSuppressed (w g s f) : Passing w g (w.addSuppressed s f) g
  | takeExceptions (w g s) : Passing w g (w.takeExceptions s).2 g
  /-- Messages, jobs and diagnostics come and go as they like. -/
  | elsewhere (w g w') : w'.instances = w.instances → w'.table? = w.table? → Passing w g w' g

/-- What comes of a world and its lineage by any operations. -/
inductive Follows (w₀ : World ν β) (g₀ : Lineage) : World ν β → Lineage → Prop where
  | refl : Follows w₀ g₀ w₀ g₀
  | step {w g w' g'} : Follows w₀ g₀ w g → Passing w g w' g' → Follows w₀ g₀ w' g'

end Steps

/-! ### Scopes and their roots -/

variable {w w' : World ν β} {g g' : Lineage} {r s t : Serial} {i j : Instance} {p : PlaceId}
  {id : GlobalId} {tok : Token}

/-- The instance is the root of the scope that a token names. -/
def Heads (w : World ν β) (r : Serial) (tok : Token) : Prop :=
  w.idOf? r = some tok.id ∧ w.placeOf? r = some tok.id.home ∧ w.kindOf? r = some tok.kind

theorem Heads.token (h : w.Heads r tok) {tok' : Token} (h' : w.Heads r tok') : tok = tok' := by
  have hid : tok.id = tok'.id := Option.some.inj (h.1.symm.trans h'.1)
  have hk : tok.kind = tok'.kind := Option.some.inj (h.2.2.symm.trans h'.2.2)
  cases tok
  cases tok'
  simp_all

theorem Heads.instance? (h : w.Heads r tok) : ∃ i, w.instance? r = some i ∧ i.id = some tok.id ∧
    i.place = tok.id.home ∧ i.kind = tok.kind := by
  obtain ⟨hid, hp, hk⟩ := h
  obtain ⟨i, hi, hid⟩ := Option.bind_eq_some_iff.mp hid
  rw [placeOf?_eq hi] at hp
  rw [kindOf?_eq hi] at hk
  exact ⟨i, hi, hid, Option.some.inj hp, Option.some.inj hk⟩

theorem idOf?_length (w : World ν β) : w.idOf? w.instances.length = none := by
  simp [idOf?, instance?_length]

/-- An instance of the scope of `r` is made, with the next serial number: the scope is opened, or the
instance gets the identity of the root away from home. -/
structure Joins (w w' : World ν β) (r : Serial) (j : Instance) : Prop where
  instance? : ∀ t, w'.instance? t = if t = w.instances.length then some j else w.instance? t
  next : w'.nextOf? = w.nextOf?
  homes : w'.tableHome? = w.tableHome?
  built : w.Built j.place
  scope : j.id = none ∧ r = w.instances.length ∨
    ∃ id, j.id = some id ∧ id.home ≠ j.place ∧ w.Heads r ⟨id, j.kind⟩
  bound : ∀ p id, w'.bound? p id =
    if p = j.place ∧ j.id = some id then some (.scope w.instances.length) else w.bound? p id

namespace Joins

theorem idOf? (h : Joins w w' r j) (t : Serial) :
    w'.idOf? t = if t = w.instances.length then j.id else w.idOf? t := by
  unfold World.idOf?
  rw [h.instance?]
  split_ifs <;> rfl

theorem placeOf? (h : Joins w w' r j) (t : Serial) :
    w'.placeOf? t = if t = w.instances.length then some j.place else w.placeOf? t := by
  unfold World.placeOf?
  rw [h.instance?]
  split_ifs <;> rfl

theorem kindOf? (h : Joins w w' r j) (t : Serial) :
    w'.kindOf? t = if t = w.instances.length then some j.kind else w.kindOf? t := by
  unfold World.kindOf?
  rw [h.instance?]
  split_ifs <;> rfl

/-- The new instance is the root of no scope that has an identity. -/
theorem root (h : Joins w w' r j) (t : Serial) (id : GlobalId) :
    (w'.idOf? t = some id ∧ w'.placeOf? t = some id.home) ↔
      w.idOf? t = some id ∧ w.placeOf? t = some id.home := by
  rw [h.idOf?, h.placeOf?]
  split_ifs with ht
  · rw [ht, idOf?_length]
    constructor
    · rintro ⟨hid, hp⟩
      rcases h.scope with ⟨hnone, -⟩ | ⟨id', hid', hne, -⟩
      · rw [hnone] at hid
        cases hid
      · rw [hid'] at hid
        cases hid
        exact absurd (Option.some.inj hp).symm hne
    · rintro ⟨⟨⟩, -⟩
  · rfl

theorem heads (h : Joins w w' r j) : w'.Heads = w.Heads := by
  funext t tok
  have hroot := h.root t tok.id
  by_cases hne : t = w.instances.length
  · have hno : w.idOf? t ≠ some tok.id := fun ht => by
      rw [hne, idOf?_length] at ht
      cases ht
    exact propext ⟨fun ht => absurd (hroot.mp ⟨ht.1, ht.2.1⟩).1 hno, fun ht => absurd ht.1 hno⟩
  · unfold Heads
    rw [← and_assoc, ← and_assoc, hroot, h.kindOf?, if_neg hne]

end Joins

theorem joins_openScope [Network ν] (hp : w.Built p) (kind : ScopeKind) :
    ∃ j, Joins w (w.openScope p kind).2 w.instances.length j :=
  ⟨_, { instance? := instance?_addInstance w _
        next := rfl
        homes := rfl
        built := hp
        scope := .inl ⟨rfl, rfl⟩
        bound := fun _ _ => (if_neg fun h => by cases h.2).symm }⟩

namespace Acquires

theorem kindOf? (h : Acquires w w' s i id) : w'.kindOf? = w.kindOf? := by
  funext t
  unfold World.kindOf?
  rw [h.instance?]
  split_ifs with hts
  · rw [hts, h.old]
    rfl
  · rfl

theorem heads_self (h : Acquires w w' s i id) : w'.Heads s ⟨id, i.kind⟩ :=
  ⟨by rw [h.idOf?, if_pos rfl], by rw [h.placeOf?, placeOf?_eq h.old, h.home],
    by rw [h.kindOf?, kindOf?_eq h.old]⟩

theorem heads (h : Acquires w w' s i id) (ht : w.Heads t tok) : t ≠ s ∧ w'.Heads t tok := by
  have hne : t ≠ s := fun hts => by
    rw [hts, Heads, idOf?_eq h.old, h.unnamed] at ht
    cases ht.1
  exact ⟨hne, by rw [h.idOf?, if_neg hne, ht.1], by rw [h.placeOf?, ht.2.1],
    by rw [h.kindOf?, ht.2.2]⟩

end Acquires

/-- What the instances and the registries have to do with the lineage. -/
structure Descended (w : World ν β) (g : Lineage) : Prop where
  tables : ∀ p q, w.tableHome? p = some q → q = p
  built : ∀ s p, w.placeOf? s = some p → w.Built p
  handedOut : w.Allocated
  /-- Identities were allocated to the roots that have them, and each once. -/
  allocated : ∀ r id, (r, id) ∈ g.allocated ↔ w.idOf? r = some id ∧ w.placeOf? r = some id.home
  once : (g.allocated.map (·.2)).Nodup
  /-- An instance without an identity has opened its scope. -/
  opener : ∀ s p, w.placeOf? s = some p → w.idOf? s = none → g.scope s = s
  /-- One with an identity has that of the root of its scope. -/
  headed : ∀ s id kind, w.idOf? s = some id → w.kindOf? s = some kind →
    w.Heads (g.scope s) ⟨id, kind⟩
  issued : ∀ r tok, (r, tok) ∈ g.issued → w.Heads r tok
  /-- What is bound to an identity is an instance of its scope at the place. -/
  registered : ∀ p id b, w.bound? p id = some b →
    ∃ s, b = .scope s ∧ w.idOf? s = some id ∧ w.placeOf? s = some p
  /-- A root is bound at home until its scope is over. -/
  bound : ∀ r tok, w.Heads r tok →
    w.bound? tok.id.home tok.id = if r ∈ g.ended then none else some (.scope r)
  ended : ∀ r ∈ g.ended, ∃ tok, w.Heads r tok

theorem descended_start (net : ν (Message β)) (places : ℕ) (kind : ScopeKind) (spins : ℕ)
    (hp : places ≤ UInt32.size) : Descended (start net places kind spins) .start := by
  have ht := tidy_start net places kind spins hp
  have hid : ∀ s, (start net places kind spins : World ν β).idOf? s = none := fun s => rfl
  have hplace : ∀ s, (start net places kind spins : World ν β).placeOf? s = none := fun s => rfl
  have hbound : ∀ p id, (start net places kind spins : World ν β).bound? p id = none := fun p id => by
    refine Option.eq_none_iff_forall_ne_some.mpr fun b hb => ?_
    obtain ⟨s, i, -, hi, -⟩ := ht.registered p id b hb
    cases hi
  exact
    { tables := ht.tables
      built := fun s p h => by rw [hplace] at h; cases h
      handedOut := fun s id h => by rw [hid] at h; cases h
      allocated := fun r id => by simp [Lineage.start, hid]
      once := List.nodup_nil
      opener := fun s p h => by rw [hplace] at h; cases h
      headed := fun s id kind h => by rw [hid] at h; cases h
      issued := fun r tok h => by cases h
      registered := fun p id b h => by rw [hbound] at h; cases h
      bound := fun r tok h => by rw [Heads, hid] at h; cases h.1
      ended := fun r h => by cases h }

namespace Descended

theorem same (h : Descended w g) (hs : Same w w') : Descended w' g := by
  have hheads : w'.Heads = w.Heads := by
    unfold Heads
    rw [hs.ids, hs.places, hs.kinds]
  exact
    { tables := by rw [hs.homes]; exact h.tables
      built := by unfold Built; rw [hs.places, hs.homes]; exact h.built
      handedOut := h.handedOut.congr hs.ids hs.next
      allocated := by rw [hs.ids, hs.places]; exact h.allocated
      once := h.once
      opener := by rw [hs.ids, hs.places]; exact h.opener
      headed := by rw [hs.ids, hs.kinds, hheads]; exact h.headed
      issued := by rw [hheads]; exact h.issued
      registered := fun p id b hb => by
        rw [hs.ids, hs.places]
        exact (hs.registered p id b hb).elim (h.registered p id b) fun hx => hx
      bound := fun r tok hr => by rw [hs.roots]; exact h.bound r tok (hheads ▸ hr)
      ended := by rw [hheads]; exact h.ended }

/-- Two roots with one identity are one. -/
theorem unique (h : Descended w g) {tok' : Token} (hr : w.Heads r tok) (hr' : w.Heads t tok')
    (hid : tok.id = tok'.id) : r = t := by
  have hmem := (h.allocated r tok.id).mpr ⟨hr.1, hr.2.1⟩
  have hmem' := (h.allocated t tok'.id).mpr ⟨hr'.1, hr'.2.1⟩
  exact congrArg Prod.fst (List.inj_on_of_nodup_map h.once hmem hmem' hid)

/-- A root has opened its scope. -/
theorem scope_root (h : Descended w g) (hr : w.Heads r tok) : g.scope r = r :=
  h.unique (h.headed r tok.id tok.kind hr.1 hr.2.2) hr rfl

/-- It does not matter of which scope an instance would be that is not there. -/
theorem vacant (h : Descended w g) (r : Serial) :
    Descended w (g.enlist w.instances.length r) := by
  have hscope : ∀ s i, w.instance? s = some i →
      (g.enlist w.instances.length r).scope s = g.scope s := fun s i hi =>
    Function.update_of_ne (Nat.ne_of_lt (serial_lt hi)) ..
  exact { h with
    opener := fun s p hs hn => by
      obtain ⟨i, hi, -⟩ := Option.map_eq_some_iff.mp hs
      rw [hscope s i hi]
      exact h.opener s p hs hn
    headed := fun s id kind hs hk => by
      obtain ⟨i, hi, -⟩ := Option.map_eq_some_iff.mp hk
      rw [hscope s i hi]
      exact h.headed s id kind hs hk }

theorem joins (h : Descended w g) (hj : Joins w w' r j) :
    Descended w' (g.enlist w.instances.length r) := by
  have hscope : ∀ t, (g.enlist w.instances.length r).scope t =
      if t = w.instances.length then r else g.scope t := fun t => Function.update_apply ..
  refine
    { tables := by rw [hj.homes]; exact h.tables
      built := fun s p hs => ?_
      handedOut := fun s id hs => ?_
      allocated := fun s id => (h.allocated s id).trans (hj.root s id).symm
      once := h.once
      opener := fun s p hs hn => ?_
      headed := fun s id kind hs hk => ?_
      issued := by rw [hj.heads]; exact h.issued
      registered := fun p id b hb => ?_
      bound := fun s tok hs => ?_
      ended := by rw [hj.heads]; exact h.ended }
  · unfold Built
    rw [hj.homes]
    rw [hj.placeOf?] at hs
    split_ifs at hs
    · cases hs
      exact hj.built
    · exact h.built s p hs
  · rw [hj.next]
    rw [hj.idOf?] at hs
    split_ifs at hs
    · rcases hj.scope with ⟨hnone, -⟩ | ⟨id', hid', -, hr⟩
      · rw [hnone] at hs
        cases hs
      · rw [hid'] at hs
        cases hs
        exact h.handedOut r id hr.1
    · exact h.handedOut s id hs
  · rw [hscope]
    rw [hj.idOf?] at hn
    rw [hj.placeOf?] at hs
    split_ifs at hs hn ⊢ with hsn
    · rcases hj.scope with ⟨-, rfl⟩ | ⟨id', hid', -⟩
      · exact hsn.symm
      · rw [hn] at hid'
        cases hid'
    · exact h.opener s p hs hn
  · rw [hscope, hj.heads]
    rw [hj.idOf?] at hs
    rw [hj.kindOf?] at hk
    split_ifs at hs hk ⊢
    · cases hk
      rcases hj.scope with ⟨hnone, -⟩ | ⟨id', hid', -, hr⟩
      · rw [hnone] at hs
        cases hs
      · rw [hid'] at hs
        cases hs
        exact hr
    · exact h.headed s id kind hs hk
  · rw [hj.bound] at hb
    split_ifs at hb with hq
    · obtain ⟨rfl, hjid⟩ := hq
      exact ⟨_, (Option.some.inj hb).symm, by rw [hj.idOf?, if_pos rfl, hjid],
        by rw [hj.placeOf?, if_pos rfl]⟩
    · obtain ⟨s, rfl, hid, hp⟩ := h.registered p id b hb
      have hne : s ≠ w.instances.length := fun hs => by
        rw [hs, idOf?_length] at hid
        cases hid
      exact ⟨s, rfl, by rw [hj.idOf?, if_neg hne, hid], by rw [hj.placeOf?, if_neg hne, hp]⟩
  · rw [hj.heads] at hs
    rw [hj.bound, if_neg]
    · exact h.bound s tok hs
    · rintro ⟨hp, hjid⟩
      rcases hj.scope with ⟨hnone, -⟩ | ⟨id', hid', hne, -⟩
      · rw [hnone] at hjid
        cases hjid
      · rw [hid'] at hjid
        cases hjid
        exact hne hp

theorem acquires (h : Descended w g) (ha : Acquires w w' s i id) :
    Descended w' { g with
      issued := (g.scope s, ⟨id, i.kind⟩) :: g.issued
      allocated := (s, id) :: g.allocated } := by
  have hunnamed : w.idOf? s = none := (idOf?_eq ha.old).trans ha.unnamed
  have hscope : g.scope s = s := h.opener s i.place (placeOf?_eq ha.old) hunnamed
  have hfresh := ha.fresh h.handedOut
  refine
    { tables := by rw [ha.homes]; exact h.tables
      built := by unfold Built; rw [ha.placeOf?, ha.homes]; exact h.built
      handedOut := fun t id' ht => ?_
      allocated := fun t id' => ?_
      once := List.nodup_cons.mpr ⟨fun hm => ?_, h.once⟩
      opener := fun t q ht hn => ?_
      headed := fun t id' kind ht hk => ?_
      issued := fun t tok ht => ?_
      registered := fun q id' b hb => ?_
      bound := fun t tok ht => ?_
      ended := fun t ht => ?_ }
  · rw [ha.idOf?] at ht
    split_ifs at ht
    · cases ht
      refine ⟨id.serial + 1, by rw [ha.next, if_pos ha.home], ?_⟩
      rw [ha.toNat_succ]
      exact Nat.lt_succ_self _
    · obtain ⟨n, hn, hlt⟩ := h.handedOut t id' ht
      obtain ⟨n', hn', hle⟩ := ha.advances hn
      exact ⟨n', hn', hlt.trans_le hle⟩
  · rw [List.mem_cons, h.allocated, ha.idOf?, ha.placeOf?]
    by_cases hts : t = s
    · subst hts
      rw [if_pos rfl, hunnamed, placeOf?_eq ha.old, ← ha.home]
      constructor
      · rintro (he | ⟨⟨⟩, -⟩)
        cases he
        exact ⟨rfl, rfl⟩
      · rintro ⟨he, -⟩
        cases he
        exact .inl rfl
    · rw [if_neg hts, or_iff_right fun he => hts (Prod.mk.inj he).1]
  · obtain ⟨⟨t, id'⟩, hmem, rfl⟩ := List.mem_map.mp hm
    exact hfresh t ((h.allocated t _).mp hmem).1
  · rw [ha.idOf?] at hn
    split_ifs at hn
    exact h.opener t q (ha.placeOf? ▸ ht) hn
  · rw [ha.idOf?] at ht
    rw [ha.kindOf?] at hk
    split_ifs at ht with hts
    · cases ht
      rw [hts, kindOf?_eq ha.old] at hk
      cases hk
      show w'.Heads (g.scope t) _
      rw [hts, hscope]
      exact ha.heads_self
    · exact (ha.heads (h.headed t id' kind ht hk)).2
  · rcases List.mem_cons.mp ht with he | ht
    · cases he
      rw [hscope]
      exact ha.heads_self
    · exact (ha.heads (h.issued t tok ht)).2
  · rw [ha.bound] at hb
    rw [ha.placeOf?]
    split_ifs at hb with hq
    · obtain ⟨rfl, rfl⟩ := hq
      exact ⟨s, (Option.some.inj hb).symm, by rw [ha.idOf?, if_pos rfl], placeOf?_eq ha.old⟩
    · obtain ⟨t, rfl, ht, htp⟩ := h.registered q id' b hb
      have hne : t ≠ s := fun hts => by
        rw [hts, hunnamed] at ht
        cases ht
      exact ⟨t, rfl, by rw [ha.idOf?, if_neg hne, ht], htp⟩
  · rw [ha.bound]
    by_cases hts : t = s
    · subst hts
      obtain rfl := ha.heads_self.token ht
      have hover : t ∉ g.ended := fun ho => by
        obtain ⟨tok, hr⟩ := h.ended t ho
        exact (ha.heads hr).1 rfl
      rw [if_pos ⟨ha.home, rfl⟩]
      exact (if_neg hover).symm
    · have ht' : w.Heads t tok := by
        refine ⟨?_, ha.placeOf? ▸ ht.2.1, ha.kindOf? ▸ ht.2.2⟩
        rw [← ht.1, ha.idOf?, if_neg hts]
      rw [if_neg fun hq => hfresh t (by rw [ht'.1, hq.2])]
      exact h.bound t tok ht'
  · obtain ⟨tok, hr⟩ := h.ended t ht
    exact ⟨tok, (ha.heads hr).2⟩

/-- The root of a scope gives up the identity. -/
theorem exit (h : Descended w g) (hi : w.instance? s = some i) (hr : i.role = .root) :
    Descended (w.exit s) { g with ended := g.scope s :: g.ended } := by
  obtain ⟨id, hid, hp⟩ := Instance.id_of_root hr
  have hself : w.Heads s ⟨id, i.kind⟩ :=
    ⟨(idOf?_eq hi).trans hid, by rw [placeOf?_eq hi, hp], kindOf?_eq hi⟩
  have hscope := h.scope_root hself
  rw [show w.exit s = w.unbind i.place id s by simp [World.exit, hi, hid]]
  have hhomes : (w.unbind i.place id s).tableHome? = w.tableHome? := tableHome?_unbind ..
  exact
    { tables := by rw [hhomes]; exact h.tables
      built := by unfold Built; rw [hhomes]; exact h.built
      handedOut := h.handedOut.congr rfl (nextOf?_unbind ..)
      allocated := h.allocated
      once := h.once
      opener := h.opener
      headed := h.headed
      issued := h.issued
      registered := fun q id' b hb => by
        rw [bound?_unbind] at hb
        split_ifs at hb
        exact h.registered q id' b hb
      bound := fun t tok ht => by
        have hb := h.bound t tok ht
        rw [bound?_unbind, hscope]
        by_cases hts : t = s
        · subst hts
          obtain rfl := hself.token ht
          rw [if_pos (List.mem_cons_self ..)]
          split_ifs at hb ⊢ with ho
          · rfl
          · rfl
          · exact hb
          · exact absurd ⟨hp, rfl, hp ▸ hb⟩ ho
        · rw [if_neg fun hq => hts (h.unique ht hself hq.2.1), hb]
          simp [hts]
      ended := fun t ht => by
        rcases List.mem_cons.mp ht with rfl | ht
        · exact ⟨_, hscope.symm ▸ hself⟩
        · exact h.ended t ht }

section Kept

variable [Network ν]

/-- An instance that is asked for its token has an identity, or gets one unless there is none left. -/
theorem prepareTransfer_spec (h : Descended w g) (hi : w.instance? s = some i) :
    (∃ id, i.id = some id ∧ w.prepareTransfer s = (.ok ⟨id, i.kind⟩, w)) ∨
    (∃ n, i.id = none ∧ w.nextOf? i.place = some n ∧ UInt32.size ≤ n.toNat + 1 ∧
      w.prepareTransfer s = (.error (.allocate (.exhausted i.place)), w)) ∨
    ∃ id w', w.prepareTransfer s = (.ok ⟨id, i.kind⟩, w') ∧ Acquires w w' s i id := by
  cases hid : i.id with
  | some id => exact .inl ⟨id, rfl, prepareTransfer_known hi hid⟩
  | none =>
    rcases prepareTransfer_unnamed (h.built s i.place (placeOf?_eq hi)) hi hid with ⟨n, hn⟩ | hok
    · exact .inr (.inl ⟨n, rfl, hn⟩)
    · exact .inr (.inr hok)

/-- A token that was given finds an instance, or makes one away from home. -/
theorem resolve_spec (h : Descended w g) (hr : (r, tok) ∈ g.issued) (hp : w.Built p) :
    (∃ s, w.bound? p tok.id = some (.scope s) ∧ w.resolve tok p = (.ok s, w)) ∨
    (tok.id.home = p ∧ w.bound? p tok.id = none ∧
      w.resolve tok p = (.error (.unknownIdentity tok.id), w)) ∨
    ∃ w' j, tok.id.home ≠ p ∧ j.place = p ∧ j.id = some tok.id ∧ j.kind = tok.kind ∧
      w.resolve tok p = (.ok w.instances.length, w') ∧ Joins w w' r j := by
  cases hb : w.bound? p tok.id with
  | some b =>
    obtain ⟨s, rfl, -⟩ := h.registered p tok.id b hb
    exact .inl ⟨s, rfl, resolve_bound hb⟩
  | none =>
    by_cases hhome : tok.id.home = p
    · exact .inr (.inl ⟨hhome, rfl, resolve_missing hb hhome⟩)
    · refine .inr (.inr ⟨_, _, hhome, rfl, rfl, rfl, resolve_fresh hb hhome,
        { instance? := instance?_addInstance w _
          next := ?_
          homes := tableHome?_modifyIdentities _ _ _ fun _ _ => rfl
          built := hp
          scope := .inr ⟨tok.id, rfl, hhome, h.issued r tok hr⟩
          bound := fun q id' => ?_ }⟩)
      · funext q
        unfold nextOf?
        rw [table?_modifyIdentities]
        split_ifs with hq
        · rw [hq, Option.map_map]
          rfl
        · rfl
      · refine (bound?_put hp q id' _).trans ?_
        simp only [Option.some.injEq, eq_comm (a := tok.id)]

theorem prepareTransfer (h : Descended w g) (s : Serial) :
    Descended (w.prepareTransfer s).2 (g.give s (w.idOf? s).isNone (w.prepareTransfer s).1) := by
  cases hi : w.instance? s with
  | none => simpa [World.prepareTransfer, hi, Lineage.give] using h
  | some i =>
    rcases h.prepareTransfer_spec hi with ⟨id, hid, he⟩ | ⟨n, -, -, -, he⟩ | ⟨id, w', he, ha⟩
    · have hs := h.headed s id i.kind (by rw [idOf?_eq hi, hid]) (kindOf?_eq hi)
      rw [he, idOf?_eq hi, hid]
      exact { h with
        issued := fun t tok ht => by
          rcases List.mem_cons.mp ht with he | ht
          · cases he
            exact hs
          · exact h.issued t tok ht }
    · rw [he]
      exact h
    · rw [he, idOf?_eq hi, ha.unnamed]
      exact h.acquires ha

theorem resolve (h : Descended w g) (hr : (r, tok) ∈ g.issued) (hp : w.Built p) :
    Descended (w.resolve tok p).2 (g.enlist w.instances.length r) := by
  rcases h.resolve_spec hr hp with ⟨s, -, he⟩ | ⟨-, -, he⟩ | ⟨w', j, -, -, -, -, he, hj⟩ <;> rw [he]
  · exact h.vacant r
  · exact h.vacant r
  · exact h.joins hj

theorem passing (h : Descended w g) (hs : Passing w g w' g') : Descended w' g' := by
  cases hs with
  | openScope p kind hp =>
    obtain ⟨j, hj⟩ := joins_openScope hp kind
    exact h.joins hj
  | prepareTransfer s => exact h.prepareTransfer s
  | resolve r tok p hr hp => exact h.resolve hr hp
  | accept r tok p hr hp =>
    have h' := h.resolve hr hp
    unfold World.accept
    rcases hres : w.resolve tok p with ⟨_ | s, w₁⟩ <;> rw [hres] at h'
    · exact h'
    · exact h'.same (same_submit w₁ s)
  | submit s => exact h.same (same_submit w s)
  | tell s => exact h.same (same_tell w s)
  | exit s i hi hr => exact h.exit hi hr
  | spawn s target => exact h.same (same_spawn w s target)
  | unspawn s target => exact h.same (same_unspawn w s target)
  | update s deltas => exact h.same (same_update w s deltas)
  | addSuppressed s f => exact h.same (same_addSuppressed w s f)
  | takeExceptions s => exact h.same (same_takeExceptions w s)
  | elsewhere _ hi ht => exact h.same (.of_tables hi ht)

theorem follows (h : Descended w g) (hf : Follows w g w' g') : Descended w' g' := by
  induction hf with
  | refl => exact h
  | step _ hs ih => exact ih.passing hs

end Kept

end Descended

end World

end Quiescence
