/-
# The first identity of an instance

An instance that is asked for its token and has no identity gets the next one of
its place, and the place binds it. No other instance has it, nor will another
get it: the number that the place hands out next is above it.

* `Acquires`: what changes when an instance gets an identity.
* `prepareTransfer_unnamed`: it does, unless its place has none left.
-/
import Quiescence.Proofs.Ledger

namespace Quiescence

namespace World

variable {ν : Type → Type} {β : Type} {w w' : World ν β} {s : Serial} {i : Instance} {id : GlobalId}

/-- An instance gets the next identity of its place. -/
structure Acquires (w w' : World ν β) (s : Serial) (i : Instance) (id : GlobalId) : Prop where
  old : w.instance? s = some i
  unnamed : i.id = none
  home : id.home = i.place
  first : w.nextOf? i.place = some id.serial
  net : w'.net = w.net
  instance? : ∀ t, w'.instance? t = if t = s then some { i with id := some id } else w.instance? t
  homes : w'.tableHome? = w.tableHome?
  toNat_succ : (id.serial + 1).toNat = id.serial.toNat + 1
  next : ∀ q, w'.nextOf? q = if q = i.place then some (id.serial + 1) else w.nextOf? q
  bound : ∀ q id', w'.bound? q id' =
    if q = i.place ∧ id' = id then some (.scope s) else w.bound? q id'

namespace Acquires

theorem idOf? (h : Acquires w w' s i id) (t : Serial) :
    w'.idOf? t = if t = s then some id else w.idOf? t := by
  unfold World.idOf?
  rw [h.instance?]
  split_ifs <;> rfl

theorem placeOf? (h : Acquires w w' s i id) : w'.placeOf? = w.placeOf? := by
  funext t
  unfold World.placeOf?
  rw [h.instance?]
  split_ifs with hts
  · rw [hts, h.old]
    rfl
  · rfl

/-- It is above all identities that were handed out. -/
theorem fresh (h : Acquires w w' s i id) (ha : w.Allocated) (t : Serial) : w.idOf? t ≠ some id :=
  fun ht => by
    obtain ⟨n, hn, hlt⟩ := ha t id ht
    rw [h.home, h.first] at hn
    cases hn
    exact lt_irrefl _ hlt

/-- Places go on with the numbers they hand out. -/
theorem advances (h : Acquires w w' s i id) {q : PlaceId} {n : UInt32} (hn : w.nextOf? q = some n) :
    ∃ n', w'.nextOf? q = some n' ∧ n.toNat ≤ n'.toNat := by
  rw [h.next]
  split_ifs with hq
  · rw [hq, h.first] at hn
    cases hn
    exact ⟨_, rfl, h.toNat_succ.symm ▸ Nat.le_succ _⟩
  · exact ⟨n, hn, le_rfl⟩

end Acquires

variable [Network ν]

/-- An instance without an identity gets one, unless its place has handed out all it had. -/
theorem prepareTransfer_unnamed (hb : w.Built i.place) (hi : w.instance? s = some i)
    (hid : i.id = none) :
    (∃ n, w.nextOf? i.place = some n ∧ UInt32.size ≤ n.toNat + 1 ∧
      w.prepareTransfer s = (.error (.allocate (.exhausted i.place)), w)) ∨
    ∃ id w', w.prepareTransfer s = (.ok ⟨id, i.kind⟩, w') ∧ Acquires w w' s i id := by
  obtain ⟨table, ht, hhere⟩ := hb.table
  rw [prepareTransfer_fresh hi hid ht]
  have hfirst : w.nextOf? i.place = some table.next := by rw [nextOf?, ht]; rfl
  unfold Registry.allocate
  split_ifs with hroom
  · refine .inr ⟨⟨table.here, table.next⟩, _, rfl,
      { old := hi
        unnamed := hid
        home := hhere
        first := hfirst
        toNat_succ := toNat_succ_of_lt hroom
        net := rfl
        instance? := instance?_setInstance hi _
        homes := tableHome?_modifyIdentities _ _ _ fun table' ht' => ?_
        next := fun q => ?_
        bound := fun q id' => ?_ }⟩
    · rw [table?_setInstance, ht] at ht'
      cases ht'
      rfl
    · unfold nextOf?
      rw [table?_modifyIdentities, table?_setInstance, ht]
      split_ifs <;> rfl
    · rw [bound?_modifyIdentities, table?_setInstance, bound?_setInstance]
      by_cases hq : q = i.place
      · subst hq
        rw [if_pos rfl, ht, Option.bind_some, Registry.get?_put, bound?_eq, ht]
        simp only [true_and, Option.bind_some]
        rfl
      · rw [if_neg hq, if_neg fun hc => hq hc.1]
  · refine .inl ⟨table.next, hfirst, not_lt.mp hroom, ?_⟩
    rw [hhere]

end World

end Quiescence
