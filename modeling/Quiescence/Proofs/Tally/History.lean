/-
# Counters at home after any history

The counters of an instance at home keep one tally for each place, in one of two
forms, and a count that each change brings up to date by looking at one slot
before and after. Here changes come in any order, with any number of places
known at each of them, more than before or fewer. One thing is asked: a spawn at
another place is taken back only after there was one.

* `Change`, `perform`: the changes, and what each of them answers.
* `net`: the tally that the history of an instance adds up to.
* `Mirrors`: the counters say of every place what the tally says.
* `Traces.perform`, `traces_after`: one change, and so a whole history.
* `mirrors_history`: what the counters say, and what the last change answered;
  the number of known places shows in nothing but the number of slots.
-/
import Mathlib.Data.Set.Card
import Mathlib.Tactic.IntervalCases
import Quiescence.Proofs.Tally

namespace Quiescence

namespace Counters

/-- What can happen to the counters of an instance at home. -/
inductive Change where
  | spawn (target : PlaceId)
  | tell
  | unspawn (target : PlaceId)
  | update (deltas : List Int)
  deriving DecidableEq, Repr

/-- A change, with the number of places known when it is made. -/
structure Call where
  change : Change
  known : ℕ
  deriving DecidableEq, Repr

/-- What a change answers. -/
inductive Answer where
  | silent
  | retired (retired : Retired)
  | merged (released : Bool)
  deriving DecidableEq, Repr

namespace Answer

/-- Does the answer say that no work is left? -/
def released? : Answer → Option Bool
  | silent => none
  | retired r => some r.released
  | merged released => some released

def compensated? : Answer → Option Bool
  | retired r => some r.compensated
  | _ => none

end Answer

namespace Change

variable (here : PlaceId)

/-- What a change adds to the tally of the place at position `k`. -/
def amount (k : ℕ) : Change → ℤ
  | spawn target => if k = target.index then 1 else 0
  | tell => if k = here.index then -1 else 0
  | unspawn target => if k = target.index then -1 else 0
  | update deltas => slot deltas k

/-- The positions that a change reads and writes, where there are slots. -/
def positions : Change → List ℕ
  | spawn target => [target.index]
  | tell => [here.index]
  | unspawn target => [target.index]
  | update deltas => List.range deltas.length

/-- Does the change need slots? -/
def splits : Change → Bool
  | spawn target => target != here
  | update _ => true
  | _ => false

end Change

variable {here target : PlaceId} {c c' : Counters} {call call' : Call} {calls : List Call}
  {changes : List Change}

def perform (c : Counters) (here : PlaceId) (call : Call) : Answer × Counters :=
  match call.change with
  | .spawn target => (.silent, c.spawnAtHome here target call.known)
  | .tell => (.retired (c.tellAtHome here call.known).1, (c.tellAtHome here call.known).2)
  | .unspawn target =>
    (.retired (c.unspawnAtHome target call.known).1, (c.unspawnAtHome target call.known).2)
  | .update deltas =>
    (.merged (c.update here deltas call.known).1, (c.update here deltas call.known).2)

/-- The counters of a new instance after some calls. -/
def after (here : PlaceId) (calls : List Call) : Counters :=
  calls.foldl (fun c call => (c.perform here call).2) zero

theorem after_concat (here : PlaceId) (calls : List Call) (call : Call) :
    after here (calls ++ [call]) = ((after here calls).perform here call).2 := by
  simp [after]

/-- The tally of the place at position `k`: all that the changes add to it. -/
def net (here : PlaceId) (changes : List Change) (k : ℕ) : ℤ :=
  (changes.map (·.amount here k)).sum

theorem net_concat (here : PlaceId) (changes : List Change) (change : Change) (k : ℕ) :
    net here (changes ++ [change]) k = net here changes k + change.amount here k := by
  simp [net]

/-- A spawn at another place is taken back only after there was one. -/
def Licit (here : PlaceId) (changes : List Change) : Prop :=
  ∀ n target, changes[n]? = some (.unspawn target) → target ≠ here →
    .spawn target ∈ changes.take n

theorem Licit.init {change : Change} (h : Licit here (changes ++ [change])) : Licit here changes :=
  fun n target hn ht => by
    obtain ⟨hlt, -⟩ := List.getElem?_eq_some_iff.mp hn
    have := h n target (by rw [List.getElem?_append_left hlt, hn]) ht
    rwa [List.take_append_of_le_length hlt.le] at this

theorem Licit.last (h : Licit here (changes ++ [.unspawn target])) (ht : target ≠ here) :
    .spawn target ∈ changes := by
  have := h changes.length target (by simp) ht
  rwa [List.take_left] at this

/-! ### What the counters say -/

/-- The counters say of every place what the tally `t` says. -/
structure Mirrors (here : PlaceId) (t : ℕ → ℤ) (c : Counters) : Prop where
  /-- Slots hold the tallies, missing ones zero, and the count is that of the places not at zero. -/
  split : ∀ slots, c.slots = some slots →
    (∀ k, slots.getD k 0 = t k) ∧ c.count = {k | t k ≠ 0}.ncard
  /-- Without slots, the count is the tally of the home place, and there is no other. -/
  whole : c.slots = none → c.count = t here.index ∧ ∀ k, k ≠ here.index → t k = 0
  released : c.isReleased = true ↔ ∀ k, t k = 0

theorem occupied_eq_ncard (slots : List Int) :
    occupied slots = {k | slot slots k ≠ 0}.ncard := by
  have hset : {k | slot slots k ≠ 0} =
      ((Finset.range slots.length).filter fun k => slot slots k ≠ 0 : Finset ℕ) := by
    ext k
    simp only [Finset.coe_filter, Finset.mem_range]
    refine ⟨fun hk => ⟨?_, hk⟩, And.right⟩
    by_contra hlt
    exact hk (by rw [slot_eq, List.getElem?_eq_none (Nat.le_of_not_lt hlt)]; rfl)
  rw [hset, Set.ncard_coe_finset]
  clear hset
  induction slots with
  | nil => rfl
  | cons s slots ih =>
    rw [occupied_cons, ih, List.length_cons, Finset.range_add_one', Finset.filter_insert,
      Finset.filter_map, slot_cons_zero]
    by_cases hs : s = 0
    · rw [if_neg (not_not.mpr hs), if_pos hs, Finset.card_map]
      rfl
    · rw [if_pos hs, if_neg hs, Finset.card_insert_of_notMem (by simp), Finset.card_map]
      rfl

theorem mirrors_of_tally (hx : c.Exact) : Mirrors here (c.tally here) c where
  split slots hs := by
    obtain ⟨n, _⟩ := c
    obtain rfl : _ = some slots := hs
    exact ⟨fun k => rfl, (hx slots rfl).trans (congrArg Nat.cast (occupied_eq_ncard slots))⟩
  whole hs := by
    obtain ⟨n, _⟩ := c
    obtain rfl : _ = none := hs
    exact ⟨(if_pos rfl).symm, fun k hk => if_neg hk⟩
  released := isReleased_iff hx here

/-! ### The slots there are -/

theorem length_extend (slots : List Int) (i known : ℕ) :
    slots.length ≤ (extend slots i known).length := by
  unfold extend
  split_ifs
  · exact le_rfl
  · simp

theorem length_merge (n : Int) (slots deltas : List Int) :
    (merge n slots deltas).2.length = slots.length := by
  induction slots generalizing n deltas with
  | nil => cases deltas <;> rfl
  | cons s slots ih =>
    cases deltas with
    | nil => rfl
    | cons d deltas => exact congrArg (· + 1) (ih _ _)

/-- Splitting leaves slots that are there, and makes one for the home place where there are none. -/
theorem split_length (c : Counters) (here : PlaceId) (known : ℕ) :
    (∀ slots, c.slots = some slots → (c.split here known).2 = slots) ∧
      (c.slots = none → here.index < (c.split here known).2.length) := by
  obtain ⟨n, slots⟩ := c
  cases slots with
  | none => exact ⟨fun _ h => absurd h.symm (Option.some_ne_none _), fun _ => by simp [split]⟩
  | some slots => exact ⟨fun _ h => Option.some.inj h, fun h => by cases h⟩

/-- What a change leaves of the slots: at least those there were, and those it reads and writes. -/
theorem slots_perform (c : Counters) (here : PlaceId) (call : Call) :
    (c.perform here call).2.slots.isSome = (c.slots.isSome || call.change.splits here) ∧
      ∀ slots', (c.perform here call).2.slots = some slots' →
        (∀ slots, c.slots = some slots → slots.length ≤ slots'.length) ∧
        (c.slots = none → here.index < slots'.length) ∧
        ∀ k ∈ call.change.positions here, k < slots'.length := by
  obtain ⟨hsome, hnone⟩ := split_length c here call.known
  obtain ⟨change, known⟩ := call
  cases change with
  | spawn target =>
    simp only [perform, spawnAtHome]
    by_cases hc : c.slots = none ∧ target = here
    · simp [hc.1, hc.2, Change.splits]
    · rw [if_neg hc]
      generalize c.split here known = ns at hsome hnone ⊢
      have hle := length_extend ns.2 target.index known
      constructor
      · cases hs : c.slots <;> simp_all [Change.splits]
      · intro slots' h
        simp only [Option.some.injEq] at h
        subst h
        simp only [List.length_set]
        refine ⟨fun slots hs => ?_, fun hs => (hnone hs).trans_le hle, fun k hk => ?_⟩
        · rw [← hsome slots hs]
          exact hle
        · rw [List.mem_singleton.mp hk]
          exact lt_length_extend ..
  | tell =>
    cases hs : c.slots with
    | none => simp [perform, tellAtHome, hs, Change.splits]
    | some slots =>
      have hle := length_extend slots here.index known
      simpa [perform, tellAtHome, hs, lower, Change.positions, hle] using lt_length_extend ..
  | unspawn target =>
    cases hs : c.slots with
    | none => simp [perform, unspawnAtHome, hs, Change.splits]
    | some slots =>
      have hle := length_extend slots target.index known
      simpa [perform, unspawnAtHome, hs, lower, Change.positions, hle] using lt_length_extend ..
  | update deltas =>
    simp only [perform, update]
    generalize c.split here known = ns at hsome hnone ⊢
    generalize hl : (if ns.2.length < deltas.length then
      ns.2 ++ List.replicate (max deltas.length known - ns.2.length) 0 else ns.2) = grown
    have hle : ns.2.length ≤ grown.length ∧ deltas.length ≤ grown.length := by
      subst hl
      split_ifs
      · simp only [List.length_append, List.length_replicate]; omega
      · omega
    constructor
    · simp [Change.splits]
    · intro slots' h
      simp only [Option.some.injEq] at h
      subst h
      rw [length_merge]
      refine ⟨fun slots hs => ?_, fun hs => (hnone hs).trans_le hle.1, fun k hk => ?_⟩
      · rw [← hsome slots hs]
        exact hle.1
      · exact (List.mem_range.mp hk).trans_le hle.2

/-! ### Histories -/

/-- The counters have come about by the changes. -/
structure Traces (here : PlaceId) (changes : List Change) (c : Counters) : Prop where
  exact : c.Exact
  tally : c.tally here = net here changes
  split : c.slots.isSome = changes.any (·.splits here)
  home : ∀ slots, c.slots = some slots → here.index < slots.length

theorem Traces.mirrors (h : Traces here changes c) : Mirrors here (net here changes) c :=
  h.tally ▸ mirrors_of_tally h.exact

/-- Each change keeps the count exact and moves the tally by its own amount. -/
theorem Traces.perform (h : Traces here changes c) (hl : Licit here (changes ++ [call.change])) :
    Traces here (changes ++ [call.change]) (c.perform here call).2 := by
  have hspec : (c.perform here call).2.Exact ∧ ∀ k,
      (c.perform here call).2.tally here k = c.tally here k + call.change.amount here k := by
    obtain ⟨change, known⟩ := call
    cases change with
    | spawn target => exact spawnAtHome_spec h.exact here target known
    | tell =>
      refine (tellAtHome_spec h.exact here known).imp id fun ht k => (ht k).trans ?_
      simp only [Change.amount]
      split_ifs <;> omega
    | unspawn target =>
      -- slots are there, since the spawn that is taken back has made them
      have hs : target = here ∨ c.slots.isSome := by
        by_cases ht : target = here
        · exact .inl ht
        · rw [h.split]
          exact .inr (List.any_eq_true.mpr ⟨_, hl.last ht, by simpa [Change.splits] using ht⟩)
      refine (unspawnAtHome_spec h.exact here target known hs).imp id fun ht k => (ht k).trans ?_
      simp only [Change.amount]
      split_ifs <;> omega
    | update deltas => exact update_spec h.exact here deltas known
  obtain ⟨hsplit, hlen⟩ := slots_perform c here call
  refine ⟨hspec.1, funext fun k => ?_, ?_, fun slots' hs' => ?_⟩
  · rw [hspec.2, net_concat, h.tally]
  · rw [hsplit, h.split]
    simp
  · obtain ⟨hold, hnew, -⟩ := hlen slots' hs'
    cases hs : c.slots with
    | none => exact hnew hs
    | some slots => exact (h.home slots hs).trans_le (hold slots hs)

/-- The changes that calls make, whatever is known. -/
def changesOf (calls : List Call) : List Change := calls.map (·.change)

@[simp] theorem changesOf_concat (calls : List Call) (call : Call) :
    changesOf (calls ++ [call]) = changesOf calls ++ [call.change] := by simp [changesOf]

theorem traces_after (h : Licit here (changesOf calls)) :
    Traces here (changesOf calls) (after here calls) := by
  induction calls using List.reverseRecOn with
  | nil => exact ⟨exact_zero, tally_zero here, rfl, nofun⟩
  | append_singleton calls call ih =>
    rw [changesOf_concat] at h ⊢
    rw [after_concat]
    exact (ih h.init).perform h

/-! ### What a change answers -/

theorem released_perform (hx : c.Exact) {b : Bool}
    (hb : (c.perform here call).1.released? = some b) : b = (c.perform here call).2.isReleased := by
  obtain ⟨change, known⟩ := call
  cases change with
  | spawn target => cases hb
  | tell => exact (Option.some.inj hb).symm.trans (released_tellAtHome hx here known)
  | unspawn target => exact (Option.some.inj hb).symm.trans (released_unspawnAtHome c target known)
  | update deltas => exact (Option.some.inj hb).symm.trans (released_update c here deltas known)

theorem compensated_perform {b : Bool} (hb : (c.perform here call).1.compensated? = some b) :
    b = true ↔ ∃ slots, c.slots = some slots ∧ ∃ k ∈ call.change.positions here, slots.getD k 0 = 0 := by
  obtain ⟨change, known⟩ := call
  obtain ⟨n, slots⟩ := c
  cases slots <;> cases change <;> cases hb
  all_goals
    simp [tellAtHome, unspawnAtHome, lower, Change.positions, slot_extend]
  all_goals
    rfl

/-! ### The number of known places -/

/-- The counters differ in the number of their slots at most. -/
structure Agrees (c c' : Counters) : Prop where
  count : c'.count = c.count
  split : c'.slots.isSome = c.slots.isSome
  slot : ∀ slots slots', c.slots = some slots → c'.slots = some slots' →
    ∀ k, slots'.getD k 0 = slots.getD k 0

theorem Traces.agrees (h : Traces here changes c) (h' : Traces here changes c') : Agrees c c' where
  count := by
    have hsplit := h'.split.trans h.split.symm
    cases hs : c.slots with
    | none =>
      rw [hs, Option.isSome_none, Option.isSome_eq_false_iff, Option.isNone_iff_eq_none] at hsplit
      rw [(h'.mirrors.whole hsplit).1, (h.mirrors.whole hs).1]
    | some slots =>
      rw [hs, Option.isSome_some, Option.isSome_iff_exists] at hsplit
      obtain ⟨slots', hs'⟩ := hsplit
      rw [(h'.mirrors.split slots' hs').2, (h.mirrors.split slots hs).2]
  split := h'.split.trans h.split.symm
  slot slots slots' hs hs' k :=
    ((h'.mirrors.split slots' hs').1 k).trans ((h.mirrors.split slots hs).1 k).symm

theorem Agrees.exists_zero (h : Agrees c c') (hz : ∃ slots, c.slots = some slots ∧
    ∃ k ∈ call.change.positions here, slots.getD k 0 = 0) :
    ∃ slots, c'.slots = some slots ∧ ∃ k ∈ call.change.positions here, slots.getD k 0 = 0 := by
  obtain ⟨slots, hs, k, hk, h0⟩ := hz
  obtain ⟨slots', hs'⟩ := Option.isSome_iff_exists.mp (h.split.trans (by rw [hs]; rfl))
  exact ⟨slots', hs', k, hk, (h.slot slots slots' hs hs' k).trans h0⟩

theorem Agrees.symm (h : Agrees c c') : Agrees c' c :=
  ⟨h.count.symm, h.split.symm, fun slots slots' hs hs' k => (h.slot slots' slots hs' hs k).symm⟩

/-- Answers to one change are the same if they say the same. -/
theorem answer_ext (hc : call'.change = call.change)
    (hr : ∀ b b', (c.perform here call).1.released? = some b →
      (c'.perform here call').1.released? = some b' → b' = b)
    (hz : ∀ b b', (c.perform here call).1.compensated? = some b →
      (c'.perform here call').1.compensated? = some b' → b' = b) :
    (c'.perform here call').1 = (c.perform here call).1 := by
  obtain ⟨_, known⟩ := call
  obtain ⟨change, known'⟩ := call'
  obtain rfl : change = _ := hc
  have hretired : ∀ r r' : Retired, r'.released = r.released → r'.compensated = r.compensated →
      r' = r := fun r r' h1 h2 => by cases r; cases r'; cases h1; cases h2; rfl
  cases change with
  | spawn target => rfl
  | tell => exact congrArg Answer.retired (hretired _ _ (hr _ _ rfl rfl) (hz _ _ rfl rfl))
  | unspawn target => exact congrArg Answer.retired (hretired _ _ (hr _ _ rfl rfl) (hz _ _ rfl rfl))
  | update deltas => exact congrArg Answer.merged (hr _ _ rfl rfl)

/-- **The counters at home mirror a tally of each place.** After any history they say of every place
what the history adds up to. The last change says that no work is left exactly when every tally is
zero, and that it compensated exactly when there were slots and the one it lowers was zero. It finds
the slots that it reads and writes, and takes none away. A history with the same changes, whatever
is known at each, gives the same answers and the same counters, but for the number of slots. -/
theorem mirrors_history (h : Licit here (changesOf (calls ++ [call]))) :
    Mirrors here (net here (changesOf calls)) (after here calls) ∧
    Mirrors here (net here (changesOf (calls ++ [call]))) (after here (calls ++ [call])) ∧
    (∀ b, ((after here calls).perform here call).1.released? = some b →
      (b = true ↔ ∀ k, net here (changesOf (calls ++ [call])) k = 0)) ∧
    (∀ b, ((after here calls).perform here call).1.compensated? = some b →
      (b = true ↔ ∃ slots, (after here calls).slots = some slots ∧
        ∃ k ∈ call.change.positions here, slots.getD k 0 = 0)) ∧
    (∀ slots, (after here calls).slots = some slots →
      ∃ slots', (after here (calls ++ [call])).slots = some slots' ∧ slots.length ≤ slots'.length) ∧
    (∀ slots', (after here (calls ++ [call])).slots = some slots' →
      here.index < slots'.length ∧ ∀ k ∈ call.change.positions here, k < slots'.length) ∧
    ∀ calls' call', changesOf (calls' ++ [call']) = changesOf (calls ++ [call]) →
      ((after here calls').perform here call').1 = ((after here calls).perform here call).1 ∧
      Agrees (after here (calls ++ [call])) (after here (calls' ++ [call'])) := by
  have hlast := traces_after h
  have hinit : Traces here (changesOf calls) (after here calls) := by
    rw [changesOf_concat] at h
    exact traces_after h.init
  obtain ⟨hsplit, hlen⟩ := slots_perform (after here calls) here call
  rw [← after_concat] at hsplit hlen
  refine ⟨hinit.mirrors, hlast.mirrors, fun b hb => ?_, fun b hb => compensated_perform hb,
    fun slots hs => ?_, fun slots' hs' => ⟨hlast.home slots' hs', (hlen slots' hs').2.2⟩,
    fun calls' call' hsame => ?_⟩
  · rw [released_perform hinit.exact hb, ← after_concat]
    exact hlast.mirrors.released
  · rw [hs, Option.isSome_some, Bool.true_or, Option.isSome_iff_exists] at hsplit
    obtain ⟨slots', hs'⟩ := hsplit
    exact ⟨slots', hs', (hlen slots' hs').1 slots hs⟩
  · have hlast' : Traces here (changesOf (calls ++ [call])) (after here (calls' ++ [call'])) := by
      rw [← hsame] at h ⊢
      exact traces_after h
    simp only [changesOf_concat] at hsame h
    obtain ⟨hcalls, hchange⟩ := List.append_inj' hsame rfl
    have hchange : call'.change = call.change := List.singleton_inj.mp hchange
    have hinit' : Traces here (changesOf calls) (after here calls') := by
      rw [← hcalls] at h ⊢
      exact traces_after h.init
    have hagree := hinit.agrees hinit'
    refine ⟨answer_ext hchange (fun b b' hb hb' => ?_) (fun b b' hb hb' => ?_), hlast.agrees hlast'⟩
    · rw [released_perform hinit.exact hb, released_perform hinit'.exact hb', ← after_concat,
        ← after_concat, Bool.eq_iff_iff, hlast.mirrors.released, hlast'.mirrors.released]
    · rw [Bool.eq_iff_iff, compensated_perform hb, compensated_perform hb', hchange]
      exact ⟨hagree.symm.exists_zero, hagree.exists_zero⟩

/-- A task is sent to place 2 and taken back, another goes to place 1, and the body ends. A task
that place 1 has sent home ends before the report that tells of it. -/
def overtaken : List Call :=
  [⟨.spawn ⟨0⟩, 1⟩, ⟨.spawn ⟨2⟩, 2⟩, ⟨.unspawn ⟨2⟩, 5⟩, ⟨.spawn ⟨1⟩, 1⟩, ⟨.tell, 3⟩, ⟨.tell, 2⟩]

/-- With the report nothing is left anywhere. -/
theorem mirrors_overtaken :
    Licit ⟨0⟩ (changesOf (overtaken ++ [⟨.update [1, -1], 2⟩])) ∧
      (after ⟨0⟩ overtaken).slots = some [-1, 1, 0] ∧
      ∀ k, net ⟨0⟩ (changesOf (overtaken ++ [⟨.update [1, -1], 2⟩])) k = 0 := by
  have h : Licit ⟨0⟩ (changesOf (overtaken ++ [⟨.update [1, -1], 2⟩])) := by
    intro n target hn _
    have hlt : n < 7 := (List.getElem?_eq_some_iff.mp hn).1
    interval_cases n <;> cases hn
    decide
  exact ⟨h, by decide, ((mirrors_history h).2.2.1 true (by decide)).mp rfl⟩

end Counters

end Quiescence
