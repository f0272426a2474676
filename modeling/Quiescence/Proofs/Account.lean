/-
# Why a scope is not released too early

The account of one scope, with all else left out: the tally of each place that
the root holds, the number of tasks that are outstanding there, and the
*episodes* the root has not heard of. An episode is a stretch of work at one
place away from home, from the first task accepted there to the report; its
`delta` is what the report says, or will say.

The root may learn of the end of a task before it learns of its spawn, so a
single tally says nothing: it may be zero, or negative, while work goes on. What
holds instead is a statement about the episodes in the order in which they
began (`Timeline`). The task that began an episode was spawned at home or in an
episode that had begun before. So if the reports came in that order, the tally
of its place would be positive just before each one came (`Grounded`). The
reports come in another order, but those of one place come in their own, and an
episode lowers the tally of its own place only.

* `Account.Sound`: the episodes not heard of can be put in such an order, and
  with them the tallies add up to what is outstanding.
* `Sound.atHome`, `Sound.away`, `Sound.merge`, `Sound.start`: so they can after
  each change of an account.
* `Sound.settled_of_tally_zero`: where all tallies are zero, there is no episode
  that the root has not heard of, and nothing is outstanding.
-/
import Mathlib.Algebra.BigOperators.Group.List.Basic
import Mathlib.Algebra.Group.Pi.Basic
import Mathlib.Algebra.Order.Group.Unbundled.Int
import Mathlib.Algebra.Order.Pi
import Mathlib.Tactic.Abel
import Mathlib.Tactic.Linarith
import Quiescence.Place

namespace Quiescence

/-- A stretch of work at one place away from home, and what it adds to the tally of each place. -/
structure Episode where
  place : PlaceId
  delta : ℕ → ℤ

/-- The episodes at one place, in their order. -/
def episodesAt (p : PlaceId) (es : List Episode) : List Episode := es.filter (·.place = p)

/-- What some episodes add to the tallies. -/
def totalDelta (es : List Episode) : ℕ → ℤ := (es.map (·.delta)).sum

@[simp] theorem episodesAt_nil (p : PlaceId) : episodesAt p [] = [] := rfl

@[simp] theorem episodesAt_append (p : PlaceId) (es fs : List Episode) :
    episodesAt p (es ++ fs) = episodesAt p es ++ episodesAt p fs := List.filter_append ..

theorem episodesAt_cons (p : PlaceId) (e : Episode) (es : List Episode) :
    episodesAt p (e :: es) = if e.place = p then e :: episodesAt p es else episodesAt p es := by
  simp [episodesAt, List.filter_cons]

@[simp] theorem mem_episodesAt {p : PlaceId} {e : Episode} {es : List Episode} :
    e ∈ episodesAt p es ↔ e ∈ es ∧ e.place = p := by simp [episodesAt]

@[simp] theorem totalDelta_nil : totalDelta [] = 0 := rfl

@[simp] theorem totalDelta_cons (e : Episode) (es : List Episode) :
    totalDelta (e :: es) = e.delta + totalDelta es := by simp [totalDelta]

@[simp] theorem totalDelta_append (es fs : List Episode) :
    totalDelta (es ++ fs) = totalDelta es + totalDelta fs := by simp [totalDelta]

/-- Episodes in the order in which they began: merged one after the other, each finds the tally of
its place positive. -/
def Grounded : (ℕ → ℤ) → List Episode → Prop
  | _, [] => True
  | t, e :: es => 1 ≤ t e.place.index ∧ Grounded (t + e.delta) es

/-- An episode only adds to the tallies of other places. -/
def Outward (e : Episode) : Prop := ∀ k, k ≠ e.place.index → 0 ≤ e.delta k

theorem grounded_append (t : ℕ → ℤ) (es fs : List Episode) :
    Grounded t (es ++ fs) ↔ Grounded t es ∧ Grounded (t + totalDelta es) fs := by
  induction es generalizing t with
  | nil => simp [Grounded]
  | cons e es ih =>
    simp only [List.cons_append, Grounded, ih, totalDelta_cons, and_assoc, add_assoc]

/-- Higher tallies at the places of the episodes do no harm. -/
theorem Grounded.mono {t u : ℕ → ℤ} {es : List Episode} (h : Grounded t es)
    (hle : ∀ e ∈ es, t e.place.index ≤ u e.place.index) : Grounded u es := by
  induction es generalizing t u with
  | nil => trivial
  | cons e es ih =>
    obtain ⟨h1, h2⟩ := h
    refine ⟨le_trans h1 (hle e (List.mem_cons_self ..)), ih h2 fun x hx => ?_⟩
    have := hle x (List.mem_cons_of_mem _ hx)
    simp only [Pi.add_apply]
    omega

/-! ### Accounts -/

structure Account where
  home : PlaceId
  /-- The tally of each place, as the root holds it. -/
  tally : ℕ → ℤ
  /-- The episodes at each place that the root has not heard of, in their order. -/
  episodes : PlaceId → List Episode
  /-- The tasks spawned at each place that have not ended. -/
  outstanding : ℕ → ℤ

namespace Account

variable {a b : Account}

/-- The episodes of an account in the order in which they began. -/
structure Timeline (a : Account) (es : List Episode) : Prop where
  order : ∀ p, episodesAt p es = a.episodes p
  away : ∀ e ∈ es, e.place ≠ a.home
  outward : ∀ e ∈ es, Outward e
  grounded : Grounded a.tally es
  balance : a.tally + totalDelta es = a.outstanding

def Sound (a : Account) : Prop := ∃ es, a.Timeline es

/-- Where tasks added to the tallies make them all zero, no episode is left: the earliest would have
found the tally of its place positive. -/
theorem Sound.settled_of_tally_add (h : a.Sound) {v : ℕ → ℤ} (hv : ∀ k, 0 ≤ v k)
    (hz : ∀ k, a.tally k + v k = 0) :
    (∀ p, a.episodes p = []) ∧ ∀ k, a.outstanding k + v k = 0 := by
  obtain ⟨es, ht⟩ := h
  have hes : es = [] := by
    cases es with
    | nil => rfl
    | cons e es =>
      have h1 := ht.grounded.1
      have h2 := hz e.place.index
      have h3 := hv e.place.index
      omega
  subst hes
  refine ⟨fun p => (ht.order p).symm, fun k => ?_⟩
  rw [← ht.balance]
  simp [hz]

theorem Sound.settled_of_tally_zero (h : a.Sound) (hz : ∀ k, a.tally k = 0) :
    (∀ p, a.episodes p = []) ∧ ∀ k, a.outstanding k = 0 := by
  simpa using h.settled_of_tally_add (v := 0) (fun _ => le_rfl) (by simpa using hz)

/-- A scope that has just been opened: its body is outstanding at home. -/
theorem sound_of_open (ht : a.tally = a.outstanding) (he : ∀ p, a.episodes p = []) : a.Sound :=
  ⟨[], fun p => (he p).symm, by simp, by simp, trivial, by simp [ht]⟩

theorem Sound.congr (h : a.Sound) (hh : b.home = a.home) (ht : b.tally = a.tally)
    (he : b.episodes = a.episodes) (ho : b.outstanding = a.outstanding) : b.Sound := by
  obtain ⟨es, hs⟩ := h
  exact ⟨es, fun p => by rw [he]; exact hs.order p, by rw [hh]; exact hs.away, hs.outward,
    by rw [ht]; exact hs.grounded, by rw [ht, ho]; exact hs.balance⟩

/-- Something happens at home: a spawn adds to the tally of its target, an end takes from that of
the home place. The earliest episodes are no worse off, as none is at home. -/
theorem Sound.atHome (h : a.Sound) (v : ℕ → ℤ) (hv : ∀ k, k ≠ a.home.index → 0 ≤ v k)
    (hh : b.home = a.home) (ht : b.tally = a.tally + v) (he : b.episodes = a.episodes)
    (ho : b.outstanding = a.outstanding + v) : b.Sound := by
  obtain ⟨es, hs⟩ := h
  refine ⟨es, fun p => by rw [he]; exact hs.order p, by rw [hh]; exact hs.away, hs.outward, ?_, ?_⟩
  · rw [ht]
    refine hs.grounded.mono fun e hm => ?_
    have := hv e.place.index fun hk => hs.away e hm (PlaceId.index_inj.mp hk)
    simp only [Pi.add_apply]
    omega
  · rw [ht, ho, ← hs.balance]
    abel

/-- Parts a list of episodes before the last one of a place. -/
theorem exists_last {p : PlaceId} {e : Episode} {pre es : List Episode}
    (h : episodesAt p es = pre ++ [e]) :
    ∃ l r, es = l ++ e :: r ∧ episodesAt p l = pre ∧ episodesAt p r = [] := by
  obtain ⟨l, r, rfl, h1, h2⟩ := List.filter_eq_append_iff.mp h
  obtain ⟨m, s, rfl, h3, -, h4⟩ := List.filter_eq_cons_iff.mp h2
  refine ⟨l ++ m, s, by simp, ?_, h4⟩
  rw [episodesAt_append, show episodesAt p l = pre from h1,
    show episodesAt p m = [] from List.filter_eq_nil_iff.mpr h3, List.append_nil]

/-- Parts a list of episodes before the first one of a place. -/
theorem exists_first {p : PlaceId} {e : Episode} {post es : List Episode}
    (h : episodesAt p es = e :: post) :
    ∃ l r, es = l ++ e :: r ∧ episodesAt p l = [] ∧ episodesAt p r = post := by
  obtain ⟨l, r, rfl, h1, -, h2⟩ := List.filter_eq_cons_iff.mp h
  exact ⟨l, r, rfl, List.filter_eq_nil_iff.mpr h1, h2⟩

theorem place_of_at {p : PlaceId} {e : Episode} {pre post es : List Episode}
    (h : episodesAt p es = pre ++ e :: post) : e.place = p := by
  have : e ∈ episodesAt p es := by rw [h]; simp
  exact (mem_episodesAt.mp this).2

/-- Something happens in the last episode of a place, the one that goes on. Of the episodes that
began after it none is at its place, and for the others the tallies only rise. -/
theorem Sound.away (h : a.Sound) {p : PlaceId} {e : Episode} {pre : List Episode} (v : ℕ → ℤ)
    (hv : ∀ k, k ≠ p.index → 0 ≤ v k) (hp : a.episodes p = pre ++ [e])
    (hh : b.home = a.home) (ht : b.tally = a.tally)
    (hp' : b.episodes p = pre ++ [⟨p, e.delta + v⟩]) (he : ∀ q, q ≠ p → b.episodes q = a.episodes q)
    (ho : b.outstanding = a.outstanding + v) : b.Sound := by
  obtain ⟨es, hs⟩ := h
  have hpe : e.place = p := place_of_at (hs.order p |>.trans hp)
  obtain ⟨l, r, rfl, hl, hr⟩ := exists_last (hs.order p |>.trans hp)
  obtain ⟨hg1, hg2, hg3⟩ := (grounded_append _ _ _).mp hs.grounded
  refine ⟨l ++ ⟨p, e.delta + v⟩ :: r, fun q => ?_, fun x hx => ?_, fun x hx => ?_, ?_, ?_⟩
  · rcases eq_or_ne q p with rfl | hq
    · rw [hp', episodesAt_append, episodesAt_cons, if_pos rfl, hl, hr]
    · rw [he q hq, ← hs.order q]
      simp only [episodesAt_append, episodesAt_cons, hpe, hq.symm, ↓reduceIte]
  · rw [hh]
    rcases List.mem_append.mp hx with hx | hx
    · exact hs.away x (List.mem_append_left _ hx)
    · rcases List.mem_cons.mp hx with rfl | hx
      · exact hpe ▸ hs.away e (by simp)
      · exact hs.away x (by simp [hx])
  · rcases List.mem_append.mp hx with hx | hx
    · exact hs.outward x (List.mem_append_left _ hx)
    · rcases List.mem_cons.mp hx with rfl | hx
      · intro k hk
        exact add_nonneg (hs.outward e (by simp) k (hpe ▸ hk)) (hv k hk)
      · exact hs.outward x (by simp [hx])
  · rw [ht, grounded_append]
    refine ⟨hg1, hpe ▸ hg2, hg3.mono fun x hx => ?_⟩
    have hxp : x.place ≠ p := fun hxp => by
      have : x ∈ episodesAt p r := mem_episodesAt.mpr ⟨hx, hxp⟩
      rw [hr] at this
      cases this
    have := hv x.place.index fun hk => hxp (PlaceId.index_inj.mp hk)
    simp only [Pi.add_apply]
    omega
  · rw [ht, ho, ← hs.balance]
    simp only [totalDelta_append, totalDelta_cons]
    abel

/-- The first episode of a place is merged. The episodes that began before it are at other places,
whose tallies it only raises; to the later ones it makes no difference. -/
theorem Sound.merge (h : a.Sound) {p : PlaceId} {e : Episode} {post : List Episode}
    (hp : a.episodes p = e :: post) (hh : b.home = a.home) (ht : b.tally = a.tally + e.delta)
    (hp' : b.episodes p = post) (he : ∀ q, q ≠ p → b.episodes q = a.episodes q)
    (ho : b.outstanding = a.outstanding) : b.Sound := by
  obtain ⟨es, hs⟩ := h
  have hat : episodesAt p es = [] ++ e :: post := hs.order p |>.trans hp
  have hpe : e.place = p := place_of_at hat
  obtain ⟨l, r, rfl, hl, hr⟩ := exists_first (hs.order p |>.trans hp)
  obtain ⟨hg1, -, hg3⟩ := (grounded_append _ _ _).mp hs.grounded
  have hmem : ∀ x, x ∈ l ++ r → x ∈ l ++ e :: r := fun x hx => by
    rcases List.mem_append.mp hx with hx | hx <;> simp [hx]
  refine ⟨l ++ r, fun q => ?_, fun x hx => hh ▸ hs.away x (hmem x hx),
    fun x hx => hs.outward x (hmem x hx), ?_, ?_⟩
  · rcases eq_or_ne q p with rfl | hq
    · rw [hp', episodesAt_append, hl, hr, List.nil_append]
    · rw [he q hq, ← hs.order q]
      simp only [episodesAt_append, episodesAt_cons, hpe, hq.symm, ↓reduceIte]
  · rw [ht, grounded_append]
    constructor
    · refine hg1.mono fun x hx => ?_
      have hxp : x.place ≠ e.place := fun hxe => by
        have : x ∈ episodesAt p l := mem_episodesAt.mpr ⟨hx, hxe.trans hpe⟩
        rw [hl] at this
        cases this
      have := hs.outward e (by simp) x.place.index fun hk => hxp (PlaceId.index_inj.mp hk)
      simp only [Pi.add_apply]
      omega
    · rwa [add_right_comm]
  · rw [ht, ho, ← hs.balance]
    simp only [totalDelta_append, totalDelta_cons]
    abel

/-- An episode begins at a place with a task that is outstanding there. -/
theorem Sound.start (h : a.Sound) {p : PlaceId} (hp : p ≠ a.home) (hpos : 1 ≤ a.outstanding p.index)
    (hh : b.home = a.home) (ht : b.tally = a.tally) (hp' : b.episodes p = a.episodes p ++ [⟨p, 0⟩])
    (he : ∀ q, q ≠ p → b.episodes q = a.episodes q) (ho : b.outstanding = a.outstanding) :
    b.Sound := by
  obtain ⟨es, hs⟩ := h
  refine ⟨es ++ [⟨p, 0⟩], fun q => ?_, fun x hx => ?_, fun x hx => ?_, ?_, ?_⟩
  · rcases eq_or_ne q p with rfl | hq
    · rw [hp', ← hs.order q, episodesAt_append, episodesAt_cons, if_pos rfl, episodesAt_nil]
    · rw [he q hq, ← hs.order q, episodesAt_append, episodesAt_cons, if_neg hq.symm, episodesAt_nil,
        List.append_nil]
  · rw [hh]
    rcases List.mem_append.mp hx with hx | hx
    · exact hs.away x hx
    · rw [List.mem_singleton.mp hx]; exact hp
  · rcases List.mem_append.mp hx with hx | hx
    · exact hs.outward x hx
    · rw [List.mem_singleton.mp hx]; exact fun k _ => le_refl _
  · rw [ht, grounded_append]
    refine ⟨hs.grounded, ?_, trivial⟩
    rw [hs.balance]
    exact hpos
  · rw [ht, ho, ← hs.balance]
    simp only [totalDelta_append, totalDelta_cons, totalDelta_nil]
    abel

end Account

end Quiescence
