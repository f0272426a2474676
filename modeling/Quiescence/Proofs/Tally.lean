/-
# Counters as tallies

What the counters of an instance say about the place at position `k`.

* At the home place it is `tally`: slot `k`, or the count for the home place as
  long as there are no slots. Each operation moves the tally of one place by
  one, or adds a report, and the count stays the number of slots that are not
  zero (`Exact`). So the instance is released exactly when every tally is zero
  (`isReleased_iff`).
* Away from home it is `unreported`: slot `k`, what has happened since the last
  report. A report carries all of it and leaves nothing (`tellAway_report`).

The number of known places has no part in either.
-/
import Mathlib.Algebra.Group.Pi.Basic
import Mathlib.Algebra.Ring.Int.Defs
import Mathlib.Data.Int.Basic
import Mathlib.Tactic.SplitIfs
import Mathlib.Data.Nat.Cast.Basic
import Quiescence.Counters

namespace Quiescence

namespace Counters

/-! ### Slots -/

theorem slot_eq (slots : List Int) (k : ℕ) : slot slots k = (slots[k]?).getD 0 := by
  simp [slot, List.getD_eq_getElem?_getD]

@[simp] theorem slot_nil (k : ℕ) : slot [] k = 0 := rfl

@[simp] theorem slot_cons_zero (s : Int) (slots : List Int) : slot (s :: slots) 0 = s := rfl

@[simp] theorem slot_cons_succ (s : Int) (slots : List Int) (k : ℕ) :
    slot (s :: slots) (k + 1) = slot slots k := rfl

@[simp] theorem slot_replicate (n k : ℕ) : slot (List.replicate n 0) k = 0 := by
  rw [slot_eq, List.getElem?_replicate]
  split <;> rfl

/-- Zeros after the last slot change none. -/
@[simp] theorem slot_append_replicate (slots : List Int) (n k : ℕ) :
    slot (slots ++ List.replicate n 0) k = slot slots k := by
  rw [slot_eq, slot_eq]
  by_cases hk : k < slots.length
  · rw [List.getElem?_append_left hk]
  · rw [List.getElem?_append_right (by omega), List.getElem?_eq_none (by omega : slots.length ≤ k),
      List.getElem?_replicate]
    split <;> rfl

theorem slot_set {slots : List Int} {i : ℕ} (hi : i < slots.length) (x : Int) (k : ℕ) :
    slot (slots.set i x) k = if k = i then x else slot slots k := by
  rw [slot_eq, slot_eq, List.getElem?_set]
  by_cases hk : i = k
  · subst hk; simp [hi]
  · simp [hk, Ne.symm hk]

theorem lt_length_extend (slots : List Int) (i known : ℕ) : i < (extend slots i known).length := by
  unfold extend
  split_ifs with h
  · exact h
  · simp only [List.length_append, List.length_replicate]; omega

@[simp] theorem slot_extend (slots : List Int) (i known k : ℕ) :
    slot (extend slots i known) k = slot slots k := by
  unfold extend
  split_ifs
  · rfl
  · exact slot_append_replicate _ _ _

/-! ### The number of slots that are not zero -/

/-- The number of slots that are not zero. -/
def occupied (slots : List Int) : ℕ := slots.countP (· ≠ 0)

@[simp] theorem occupied_nil : occupied [] = 0 := rfl

theorem occupied_cons (s : Int) (slots : List Int) :
    occupied (s :: slots) = occupied slots + if s = 0 then 0 else 1 := by
  unfold occupied
  rw [List.countP_cons]
  by_cases h : s = 0 <;> simp [h]

@[simp] theorem occupied_replicate (n : ℕ) : occupied (List.replicate n 0) = 0 := by
  simp [occupied, List.countP_replicate]

@[simp] theorem occupied_append_replicate (slots : List Int) (n : ℕ) :
    occupied (slots ++ List.replicate n 0) = occupied slots := by
  simp [occupied, List.countP_append, List.countP_replicate]

@[simp] theorem occupied_extend (slots : List Int) (i known : ℕ) :
    occupied (extend slots i known) = occupied slots := by
  unfold extend
  split_ifs
  · rfl
  · exact occupied_append_replicate _ _

/-- One slot changes: it is counted out with its old value and in with the new one. -/
theorem occupied_set {slots : List Int} {i : ℕ} (hi : i < slots.length) (x : Int) :
    (occupied (slots.set i x) : Int) =
      occupied slots - (if slot slots i = 0 then 0 else 1) + if x = 0 then 0 else 1 := by
  induction slots generalizing i with
  | nil => simp at hi
  | cons s slots ih =>
    cases i with
    | zero =>
      simp only [List.set_cons_zero, occupied_cons, slot_cons_zero]
      split_ifs <;> omega
    | succ i =>
      simp only [List.length_cons, Nat.add_lt_add_iff_right] at hi
      have h := ih hi
      simp only [List.set_cons_succ, occupied_cons, slot_cons_succ]
      push_cast
      omega

theorem occupied_eq_zero {slots : List Int} : occupied slots = 0 ↔ ∀ k, slot slots k = 0 := by
  induction slots with
  | nil => simp
  | cons s slots ih =>
    rw [occupied_cons, Nat.add_eq_zero_iff, ih]
    constructor
    · rintro ⟨h, hs⟩ k
      cases k with
      | zero => by_contra hne; simp_all
      | succ k => exact h k
    · intro h
      exact ⟨fun k => h (k + 1), by simpa using h 0⟩

/-! ### At the home place -/

/-- The tasks known to be outstanding at the place at position `k`, for the instance at `here`. -/
def tally (c : Counters) (here : PlaceId) (k : ℕ) : Int :=
  match c.slots with
  | some slots => slot slots k
  | none => if k = here.index then c.count else 0

/-- Where there are slots, the count is the number of those that are not zero. -/
def Exact (c : Counters) : Prop := ∀ slots, c.slots = some slots → c.count = occupied slots

@[simp] theorem tally_some (n : Int) (slots : List Int) (here : PlaceId) :
    (⟨n, some slots⟩ : Counters).tally here = slot slots := rfl

theorem exact_zero : Exact zero := fun _ h => by simp [zero] at h

@[simp] theorem tally_zero (here : PlaceId) : zero.tally here = 0 := by
  funext k
  simp [tally, zero]

/-- An instance at home is released exactly when no place has a task outstanding. -/
theorem isReleased_iff {c : Counters} (h : c.Exact) (here : PlaceId) :
    c.isReleased = true ↔ ∀ k, c.tally here k = 0 := by
  obtain ⟨n, slots⟩ := c
  cases slots with
  | none =>
    simp only [isReleased, beq_iff_eq, tally]
    exact ⟨fun hn k => by split_ifs <;> simp [hn], fun hk => by simpa using hk here.index⟩
  | some slots =>
    have hn : n = occupied slots := h slots rfl
    rw [isReleased, beq_iff_eq, show (⟨n, some slots⟩ : Counters).count = n from rfl, hn]
    simp only [tally]
    rw [← occupied_eq_zero]
    exact Int.natCast_eq_zero

/-- Splitting changes the form of the counters and no tally. -/
theorem slot_split (c : Counters) (here : PlaceId) (known k : ℕ) :
    slot (c.split here known).2 k = c.tally here k := by
  obtain ⟨n, slots⟩ := c
  cases slots with
  | some slots => rfl
  | none =>
    have hlen : here.index < (List.replicate (max known (here.index + 1)) (0 : Int)).length := by
      simp only [List.length_replicate]; omega
    simp only [split, slot_set hlen, slot_replicate, tally]

theorem split_spec {c : Counters} (h : c.Exact) (here : PlaceId) (known : ℕ) :
    (c.split here known).1 = occupied (c.split here known).2 ∧
      ∀ k, slot (c.split here known).2 k = c.tally here k := by
  refine ⟨?_, slot_split c here known⟩
  obtain ⟨n, slots⟩ := c
  cases slots with
  | some slots => exact h slots rfl
  | none =>
    have hlen : here.index < (List.replicate (max known (here.index + 1)) (0 : Int)).length := by
      simp only [List.length_replicate]; omega
    simp only [split, occupied_set hlen, slot_replicate, occupied_replicate]
    split_ifs <;> simp

/-- A slot is lowered by one, whatever the count. -/
theorem tally_lower {slots : List Int} {i : ℕ} (hi : i < slots.length) (n : Int) (here : PlaceId)
    (k : ℕ) : (lower n slots i).2.tally here k = slot slots k - if k = i then 1 else 0 := by
  simp only [lower, tally, slot_set hi]
  split_ifs with hk
  · rw [hk]
  · omega

/-- A slot is lowered by one, and counted again. -/
theorem lower_spec {slots : List Int} {i : ℕ} (hi : i < slots.length) (here : PlaceId) :
    (lower (occupied slots) slots i).2.Exact ∧
      ∀ k, (lower (occupied slots) slots i).2.tally here k = slot slots k - if k = i then 1 else 0 := by
  refine ⟨?_, tally_lower hi _ here⟩
  intro slots' h
  simp only [lower, Option.some.injEq] at h
  subst h
  rw [occupied_set hi]
  simp only [lower]
  split_ifs <;> omega

theorem spawnAtHome_spec {c : Counters} (h : c.Exact) (here target : PlaceId) (known : ℕ) :
    (c.spawnAtHome here target known).Exact ∧
      ∀ k, (c.spawnAtHome here target known).tally here k =
        c.tally here k + if k = target.index then 1 else 0 := by
  unfold spawnAtHome
  split_ifs with hc
  · obtain ⟨hnone, rfl⟩ := hc
    constructor
    · intro slots hs
      simp [hnone] at hs
    · intro k
      simp only [tally, hnone]
      split_ifs <;> omega
  · obtain ⟨hn, hs⟩ := split_spec h here known
    generalize c.split here known = ns at hn hs ⊢
    obtain ⟨n, slots⟩ := ns
    simp only at hn hs ⊢
    have hlen := lt_length_extend slots target.index known
    constructor
    · intro slots' h'
      simp only [Option.some.injEq] at h'
      subst h'
      rw [occupied_set hlen, occupied_extend, slot_extend, ← hn]
      simp only
      split_ifs <;> omega
    · intro k
      rw [tally_some, slot_set hlen, slot_extend, slot_extend, ← hs k]
      split_ifs with hk
      · rw [hk]
      · omega

theorem tally_tellAtHome (c : Counters) (here : PlaceId) (known : ℕ) :
    (c.tellAtHome here known).2.tally here = c.tally here + Pi.single here.index (-1) := by
  funext k
  have h : (c.tellAtHome here known).2.tally here k =
      c.tally here k - if k = here.index then 1 else 0 := by
    obtain ⟨n, slots⟩ := c
    cases slots with
    | none =>
      simp only [tellAtHome, tally]
      split_ifs <;> omega
    | some slots => rw [tellAtHome, tally_lower (lt_length_extend _ _ _), slot_extend, tally_some]
  rw [h, Pi.add_apply, Pi.single_apply]
  split_ifs <;> rfl

theorem tellAtHome_spec {c : Counters} (h : c.Exact) (here : PlaceId) (known : ℕ) :
    (c.tellAtHome here known).2.Exact ∧
      ∀ k, (c.tellAtHome here known).2.tally here k =
        c.tally here k - if k = here.index then 1 else 0 := by
  constructor
  · obtain ⟨n, slots⟩ := c
    cases slots with
    | none =>
      intro slots hs
      simp [tellAtHome] at hs
    | some slots =>
      obtain rfl : n = occupied slots := h slots rfl
      simp only [tellAtHome]
      rw [← occupied_extend slots here.index known]
      exact (lower_spec (lt_length_extend _ _ _) here).1
  · intro k
    rw [tally_tellAtHome, Pi.add_apply, Pi.single_apply]
    split_ifs <;> rfl

/-- A retraction undoes the tally of its spawn. Where there are no slots, only the home place can
have been spawned at. -/
theorem unspawnAtHome_spec {c : Counters} (h : c.Exact) (here target : PlaceId) (known : ℕ)
    (hs : target = here ∨ c.slots.isSome) :
    (c.unspawnAtHome target known).2.Exact ∧
      ∀ k, (c.unspawnAtHome target known).2.tally here k =
        c.tally here k - if k = target.index then 1 else 0 := by
  obtain ⟨n, slots⟩ := c
  cases slots with
  | none =>
    obtain rfl : target = here := by simpa using hs
    constructor
    · intro slots hs
      simp [unspawnAtHome] at hs
    · intro k
      simp only [unspawnAtHome, tally]
      split_ifs <;> omega
  | some slots =>
    obtain rfl : n = occupied slots := h slots rfl
    simp only [unspawnAtHome]
    rw [← occupied_extend slots target.index known]
    refine (lower_spec (lt_length_extend _ _ _) here).imp id fun ht k => ?_
    rw [ht k, slot_extend]
    rfl

/-- What an operation says of the release is what the counters say after it. -/
theorem released_lower {slots : List Int} {i : ℕ} (hi : i < slots.length) (here : PlaceId) :
    (lower (occupied slots) slots i).1.released = (lower (occupied slots) slots i).2.isReleased := by
  obtain ⟨hx, ht⟩ := lower_spec hi here
  rw [Bool.eq_iff_iff, isReleased_iff hx here]
  constructor
  · intro h
    rw [← isReleased_iff hx here]
    simp only [lower, Bool.and_eq_true] at h
    exact h.2
  · intro h
    -- the slot that was lowered is zero now, so it was one
    have h1 : slot slots i = 1 := by
      have := (ht i).symm.trans (h i)
      rw [if_pos rfl] at this
      omega
    have h0 := (isReleased_iff hx here).mpr h
    simp only [lower, isReleased, h1] at h0 ⊢
    simpa using h0

theorem released_tellAtHome {c : Counters} (h : c.Exact) (here : PlaceId) (known : ℕ) :
    (c.tellAtHome here known).1.released = (c.tellAtHome here known).2.isReleased := by
  obtain ⟨n, slots⟩ := c
  cases slots with
  | none => rfl
  | some slots =>
    obtain rfl : n = occupied slots := h slots rfl
    simp only [tellAtHome]
    rw [← occupied_extend slots here.index known]
    exact released_lower (lt_length_extend _ _ _) here

theorem released_unspawnAtHome (c : Counters) (target : PlaceId) (known : ℕ) :
    (c.unspawnAtHome target known).1.released = (c.unspawnAtHome target known).2.isReleased := by
  obtain ⟨n, slots⟩ := c
  cases slots <;> rfl

theorem tally_spawnAtHome {c : Counters} (h : c.Exact) (here target : PlaceId) (known : ℕ) :
    (c.spawnAtHome here target known).tally here = c.tally here + Pi.single target.index 1 := by
  funext k
  rw [(spawnAtHome_spec h here target known).2 k, Pi.add_apply, Pi.single_apply]

/-- After a spawn elsewhere, or with slots already there, there are slots. -/
theorem slots_spawnAtHome {c : Counters} {here target : PlaceId} (known : ℕ)
    (h : target ≠ here ∨ c.slots.isSome) : (c.spawnAtHome here target known).slots.isSome := by
  unfold spawnAtHome
  split_ifs with hc
  · rcases h with h | h
    · exact absurd hc.2 h
    · simp [hc.1] at h
  · rfl

/-- Merging adds position by position and counts each slot out and in again. -/
theorem merge_spec (n : Int) (slots deltas : List Int) (hlen : deltas.length ≤ slots.length) :
    (merge n slots deltas).1 - occupied (merge n slots deltas).2 = n - occupied slots ∧
      ∀ k, slot (merge n slots deltas).2 k = slot slots k + slot deltas k := by
  induction slots generalizing n deltas with
  | nil =>
    obtain rfl : deltas = [] := List.length_eq_zero_iff.mp (by simpa using hlen)
    exact ⟨rfl, fun k => rfl⟩
  | cons s slots ih =>
    cases deltas with
    | nil => exact ⟨rfl, fun k => by simp [merge]⟩
    | cons d deltas =>
      simp only [List.length_cons, Nat.add_le_add_iff_right] at hlen
      simp only [merge]
      generalize hn : (if s + d = 0 then if s = 0 then n else n - 1
        else (if s = 0 then n else n - 1) + 1) = n'
      obtain ⟨h1, h2⟩ := ih n' deltas hlen
      constructor
      · rw [occupied_cons, occupied_cons]
        push_cast
        split_ifs at hn ⊢ <;> omega
      · intro k
        cases k with
        | zero => rfl
        | succ k => exact h2 k

/-- Slots are added first where the report has more positions than there are slots. -/
theorem merge_extended (n : Int) (slots deltas : List Int) (known : ℕ) {slots' : List Int}
    (hl : slots' = if slots.length < deltas.length then
      slots ++ List.replicate (max deltas.length known - slots.length) 0 else slots) :
    (merge n slots' deltas).1 - occupied (merge n slots' deltas).2 = n - occupied slots ∧
      ∀ k, slot (merge n slots' deltas).2 k = slot slots k + slot deltas k := by
  have hlen : deltas.length ≤ slots'.length := by
    subst hl
    split_ifs with h
    · simp only [List.length_append, List.length_replicate]; omega
    · omega
  have hocc : occupied slots' = occupied slots := by subst hl; split_ifs <;> simp
  have hslot : ∀ k, slot slots' k = slot slots k := by intro k; subst hl; split_ifs <;> simp
  obtain ⟨h1, h2⟩ := merge_spec n slots' deltas hlen
  exact ⟨h1.trans (by rw [hocc]), fun k => (h2 k).trans (by rw [hslot])⟩

/-- A report is added to the tallies, whatever the count. -/
theorem tally_update (c : Counters) (here : PlaceId) (deltas : List Int) (known k : ℕ) :
    (c.update here deltas known).2.tally here k = c.tally here k + slot deltas k := by
  rw [← slot_split c here known]
  exact (merge_extended (c.split here known).1 (c.split here known).2 deltas known rfl).2 k

theorem update_spec {c : Counters} (h : c.Exact) (here : PlaceId) (deltas : List Int) (known : ℕ) :
    (c.update here deltas known).2.Exact ∧
      ∀ k, (c.update here deltas known).2.tally here k = c.tally here k + slot deltas k := by
  refine ⟨?_, tally_update c here deltas known⟩
  have hn := (split_spec h here known).1
  unfold update
  generalize c.split here known = ns at hn ⊢
  obtain ⟨n, slots⟩ := ns
  have hm := (merge_extended n slots deltas known rfl).1
  rintro _ ⟨⟩
  simp only at hn ⊢
  omega

theorem released_update (c : Counters) (here : PlaceId) (deltas : List Int) (known : ℕ) :
    (c.update here deltas known).1 = (c.update here deltas known).2.isReleased := rfl

/-! ### At any other place -/

/-- What has happened since the last report: spawns at the place at position `k`, less ends. -/
def unreported (c : Counters) (k : ℕ) : Int := slot (c.slots.getD []) k

theorem slot_slotsAway (c : Counters) (known k : ℕ) : slot (c.slotsAway known) k = c.unreported k := by
  unfold slotsAway unreported
  cases c.slots with
  | none => simp
  | some slots => rfl

@[simp] theorem unreported_materialize (known : ℕ) : (zero.materialize known).unreported = 0 := by
  funext k
  simp [materialize, unreported, slotsAway, zero]

@[simp] theorem count_materialize (known : ℕ) : (zero.materialize known).count = 0 := rfl

@[simp] theorem count_addAway (c : Counters) (i known : ℕ) (d : Int) :
    (c.addAway i known d).count = c.count := rfl

theorem unreported_addAway (c : Counters) (i known : ℕ) (d : Int) :
    (c.addAway i known d).unreported = c.unreported + Pi.single i d := by
  funext k
  simp only [addAway, unreported, Option.getD_some, slot_set (lt_length_extend _ _ _), slot_extend,
    slot_slotsAway, Pi.add_apply, Pi.single_apply]
  split_ifs with h
  · rw [h]
  · simp

/-- An end that is not the last one is noted and not reported. -/
theorem tellAway_quiet {c : Counters} (here : PlaceId) (known : ℕ) (h : c.count ≠ 1) :
    c.tellAway here known =
      (none, { c.addAway here.index known (-1) with count := c.count - 1 }) := by
  have hne : c.count - 1 ≠ 0 := by omega
  simp [tellAway, hne]

/-- The last end makes a report of everything since the last one. -/
theorem tellAway_report {c : Counters} (here : PlaceId) (known : ℕ) (h : c.count = 1) :
    ∃ deltas c', c.tellAway here known = (some deltas, c') ∧
      slot deltas = c.unreported + Pi.single here.index (-1) ∧
      c'.count = 0 ∧ c'.unreported = 0 := by
  have h0 : c.count - 1 = 0 := by omega
  generalize hs : (c.addAway here.index known (-1)).slotsAway known = deltas
  refine ⟨deltas, ⟨0, some (List.replicate deltas.length 0)⟩, ?_, ?_, rfl, ?_⟩
  · simp [tellAway, h0, ← hs, slotsAway]
  · rw [← unreported_addAway c here.index known (-1)]
    funext k
    rw [← hs]
    exact slot_slotsAway _ _ _
  · funext k
    exact slot_replicate _ _

end Counters

end Quiescence
