/-
# Where only part of what was written is there

`Strict r bs a` says of a reader that of bytes beginning with `bs` it takes
nothing but `a`, and that of a proper part of `bs` it finds that the bytes end
too early. It may find so of the whole as well: a reader of nested values goes
only so deep. As with `Reads`, there is one fact for each writer.
-/
import Mathlib.Tactic.SplitIfs
import Quiescence.Proofs.Wire

namespace Quiescence.Wire

variable {α β : Type}

structure Strict (r : Reader α) (bs : Bytes) (a : α) : Prop where
  whole : ∀ rest, r (bs ++ rest) = .ok (a, rest) ∨ r (bs ++ rest) = .error .truncated
  part : ∀ front back, front ++ back = bs → back ≠ [] → r front = .error .truncated

/-- A value that is read whatever follows is read in full or not at all. -/
theorem Reads.strict {r : Reader α} {bs : Bytes} {a : α} (h : Reads r bs a)
    (hp : ∀ front back, front ++ back = bs → back ≠ [] → r front = .error .truncated) :
    Strict r bs a :=
  ⟨fun rest => .inl (h rest), hp⟩

namespace Strict

theorem pure (a : α) : Strict (Pure.pure a) [] a := by
  refine (Reads.pure a).strict ?_
  intro front back h hb
  exact absurd (List.append_eq_nil_iff.mp h).2 hb

/-- At no depth at all. -/
theorem fail (bs : Bytes) (a : α) : Strict (Reader.fail .truncated) bs a :=
  ⟨fun _ => .inr rfl, fun _ _ _ _ => rfl⟩

/-- The bytes end in what is read first, or in what is read then. -/
theorem bind {r : Reader α} {f : α → Reader β} {bs bs' : Bytes} {a : α} {b : β}
    (h : Strict r bs a) (h' : Strict (f a) bs' b) : Strict (r >>= f) (bs ++ bs') b := by
  have hbind : ∀ inp, (r >>= f) inp = Reader.bind r f inp := fun _ => rfl
  constructor
  · intro rest
    rw [hbind, Reader.bind, List.append_assoc]
    rcases h.whole (bs' ++ rest) with hr | hr
    · rw [hr]
      exact h'.whole rest
    · rw [hr]
      exact .inr rfl
  · intro front back hf hb
    rw [hbind, Reader.bind]
    rcases List.append_eq_append_iff.mp hf with ⟨mid, hbs, -⟩ | ⟨mid, hfront, hbs'⟩
    · by_cases hm : mid = []
      · -- the first value is there, and nothing of the second
        subst hm
        rw [List.append_nil] at hbs
        have hr := h.whole []
        rw [List.append_nil, hbs] at hr
        rcases hr with hr | hr
        · rw [hr]
          refine h'.part [] bs' rfl ?_
          rintro rfl
          rw [hbs, List.append_nil] at hf
          exact hb (List.append_right_eq_self.mp hf)
        · rw [hr]
      · rw [h.part front mid hbs.symm hm]
    · rw [hfront]
      rcases h.whole mid with hr | hr
      · rw [hr]
        exact h'.part mid back hbs'.symm hb
      · rw [hr]

/-- Nothing more is read. -/
theorem last {r : Reader α} {f : α → Reader β} {bs : Bytes} {a : α} {b : β}
    (h : Strict r bs a) (h' : Strict (f a) [] b) : Strict (r >>= f) bs b := by
  have := h.bind h'
  rwa [List.append_nil] at this

end Strict

/-! ### Numbers -/

theorem strict_nat {bits n : ℕ} (h : n < 2 ^ bits) : Strict (readNat bits) (writeNat n) n := by
  refine (reads_nat h).strict ?_
  induction n using Nat.strongRecOn generalizing bits with
  | ind n ih =>
    intro front back hf hb
    cases front with
    | nil => rfl
    | cons b front =>
      by_cases hn : n < 128
      · rw [writeNat_small hn, List.cons_append] at hf
        injection hf with _ hf
        exact absurd (List.append_eq_nil_iff.mp hf).2 hb
      · rw [writeNat_large hn, List.cons_append] at hf
        injection hf with hbyte hf
        have hb' : b.toNat = n % 128 + 128 := by
          rw [hbyte]
          exact toNat_byte (by omega)
        have hlarge : ¬ bits ≤ 7 := large_of_not_small h hn
        have hrest := ih (n / 128) (by omega) (rest_lt h hn) front back hf hb
        simp only [readNat, hb', hlarge, hrest, if_false]
        rw [if_neg (by omega)]

theorem strict_word (w : UInt32) : Strict readWord (writeWord w) w := by
  refine (strict_nat w.toNat_lt).last ?_
  rw [UInt32.ofNat_toNat]
  exact .pure w

theorem strict_length {n : ℕ} (h : n < 2 ^ 64) : Strict readLength (writeNat n) n := strict_nat h

theorem strict_place (p : PlaceId) : Strict readPlace (writePlace p) p :=
  (strict_word p.number).last (.pure p)

/-! ### Texts, optional values, lists -/

theorem strict_bytes (bs : Bytes) : Strict (readBytes bs.length) bs bs := by
  refine (reads_bytes bs).strict ?_
  intro front back hf hb
  have hlen : front.length + back.length = bs.length := by rw [← List.length_append, hf]
  have hpos := List.length_pos_of_ne_nil hb
  rw [readBytes, if_neg (by omega)]

theorem strict_text {s : String} (h : s.utf8ByteSize < 2 ^ 64) : Strict readText (writeText s) s := by
  have hbytes := strict_bytes s.toByteArray.data.toList
  rw [length_text] at hbytes
  refine (strict_length h).bind (hbytes.last ?_)
  rw [Array.toArray_toList, fromUTF8?_toByteArray]
  exact .pure s

theorem strict_none (r : Reader α) : Strict (readOption r) [0] none := by
  refine (reads_none r).strict ?_
  intro front back hf hb
  cases front with
  | nil => rfl
  | cons b front =>
    rw [List.cons_append] at hf
    injection hf with _ hf
    exact absurd (List.append_eq_nil_iff.mp hf).2 hb

theorem strict_some {r : Reader α} {bs : Bytes} {a : α} (h : Strict r bs a) :
    Strict (readOption r) (1 :: bs) (some a) := by
  have h' : Strict (do let a ← r; Pure.pure (some a)) bs (some a) := h.last (.pure (some a))
  constructor
  · exact fun rest => h'.whole rest
  · intro front back hf hb
    cases front with
    | nil => rfl
    | cons b front =>
      rw [List.cons_append] at hf
      injection hf with hbyte hf
      subst hbyte
      exact h'.part front back hf hb

theorem strict_many {r : Reader α} {write : α → Bytes} (as : List α)
    (h : ∀ a ∈ as, Strict r (write a) a) : Strict (readMany r as.length) (as.flatMap write) as := by
  induction as with
  | nil => exact .pure []
  | cons a as ih =>
    have h1 := h a (List.mem_cons_self ..)
    have h2 := ih fun x hx => h x (List.mem_cons_of_mem _ hx)
    exact h1.bind (h2.last (.pure (a :: as)))

theorem strict_list {r : Reader α} {write : α → Bytes} {as : List α} (hlen : as.length < 2 ^ 64)
    (h : ∀ a ∈ as, Strict r (write a) a) :
    Strict (readList r) (writeNat as.length ++ as.flatMap write) as :=
  (strict_length hlen).bind (strict_many as h)

end Quiescence.Wire
