/-
# Which bytes are read as numbers

A number is read from any bytes that are its groups, also from some that are padded
with zero groups, as long as it fits its field and they do.

* `Numeral`: some bytes are the groups of seven bits of a number.
* `readNat_eq_ok`: the bytes that a number is read from, for a field of any width.
* `Word`: the groups, five at most, of a number of 32 bits.
* `Spelled`: the bytes that a value is read from are just those that spell its
  numbers, of 32 bits each. As with `Reads`, `Strict` and `Covers`, there is one
  fact for each reader.
-/
import Mathlib.Data.Nat.Digits.Defs
import Mathlib.Tactic.SplitIfs
import Quiescence.Proofs.Consumption

namespace Quiescence.Wire

variable {α β γ : Type}

/-! ### Numbers in groups -/

/-- The bytes are the groups of seven bits of a number, least significant first. There may be more
groups than the number needs. -/
structure Numeral (n : ℕ) (bs : Bytes) : Prop where
  /-- Every byte but the last says that more follow. -/
  continued : ∀ b ∈ bs.dropLast, 128 ≤ b.toNat
  ended : ∃ b ∈ bs.getLast?, b.toNat < 128
  value : Nat.ofDigits 128 (bs.map (·.toNat % 128)) = n

theorem numeral_nil (n : ℕ) : ¬ Numeral n [] := fun h => by
  obtain ⟨b, hb, -⟩ := h.ended
  cases hb

/-- A byte that does not say that more follow is all of the number. -/
theorem numeral_last {b : UInt8} (hb : b.toNat < 128) (n : ℕ) (bs : Bytes) :
    Numeral n (b :: bs) ↔ bs = [] ∧ n = b.toNat := by
  constructor
  · intro h
    cases bs with
    | nil =>
      have hv := h.value
      rw [List.map_singleton, Nat.ofDigits_singleton, Nat.mod_eq_of_lt hb] at hv
      exact ⟨rfl, hv.symm⟩
    | cons c bs =>
      have := h.continued b (by simp)
      omega
  · rintro ⟨rfl, rfl⟩
    exact ⟨by simp, ⟨b, rfl, hb⟩, by simp [Nat.mod_eq_of_lt hb]⟩

/-- A byte that says so holds the lowest seven bits, and the others follow. -/
theorem numeral_more {b : UInt8} (hb : ¬ b.toNat < 128) (n : ℕ) (bs : Bytes) :
    Numeral n (b :: bs) ↔ ∃ m, Numeral m bs ∧ n = b.toNat - 128 + 128 * m := by
  have hlow : b.toNat % 128 = b.toNat - 128 := by
    have := b.toNat_lt
    omega
  cases bs with
  | nil =>
    refine ⟨fun h => ?_, fun ⟨m, hm, _⟩ => absurd hm (numeral_nil m)⟩
    obtain ⟨c, hc, hlt⟩ := h.ended
    cases hc
    exact absurd hlt hb
  | cons c bs =>
    constructor
    · intro h
      refine ⟨_, ⟨fun x hx => h.continued x ?_, ?_, rfl⟩, ?_⟩
      · rw [List.dropLast_cons_cons]
        exact List.mem_cons_of_mem _ hx
      · simpa using h.ended
      · rw [← h.value, List.map_cons, Nat.ofDigits_cons, hlow]
    · rintro ⟨m, hm, rfl⟩
      refine ⟨fun x hx => ?_, ?_, ?_⟩
      · rw [List.dropLast_cons_cons] at hx
        rcases List.mem_cons.mp hx with rfl | hx
        · omega
        · exact hm.continued x hx
      · simpa using hm.ended
      · rw [List.map_cons, Nat.ofDigits_cons, hlow, hm.value]

theorem numeral_ne_nil {n : ℕ} {bs : Bytes} (h : Numeral n bs) : bs ≠ [] := by
  rintro rfl
  exact numeral_nil n h

/-! ### Reading a number -/

theorem readNat_last {b : UInt8} (hb : b.toNat < 128) {bits n : ℕ} {bs rest : Bytes} :
    readNat bits (b :: bs) = .ok (n, rest) ↔ b.toNat < 2 ^ bits ∧ n = b.toNat ∧ rest = bs := by
  have hpow : Nat.pow 2 bits = 2 ^ bits := rfl
  rw [readNat, if_pos hb, hpow]
  split_ifs with hlt
  · simp [hlt, eq_comm]
  · simp [hlt]

theorem readNat_more {b : UInt8} (hb : ¬ b.toNat < 128) {bits n : ℕ} {bs rest : Bytes} :
    readNat bits (b :: bs) = .ok (n, rest) ↔
      7 < bits ∧ ∃ m, readNat (bits - 7) bs = .ok (m, rest) ∧ n = b.toNat - 128 + 128 * m := by
  rw [readNat, if_neg hb]
  split_ifs with hbits
  · simp [Nat.not_lt.mpr hbits]
  · cases readNat (bits - 7) bs with
    | error e => simp
    | ok out =>
      obtain ⟨m, left⟩ := out
      simp only [Except.ok.injEq, Prod.mk.injEq, Nat.lt_of_not_le hbits, true_and]
      constructor
      · rintro ⟨rfl, rfl⟩
        exact ⟨m, ⟨rfl, rfl⟩, rfl⟩
      · rintro ⟨_, ⟨rfl, rfl⟩, rfl⟩
        exact ⟨rfl, rfl⟩

/-- All but the lowest seven bits of a number take seven bits less. -/
theorem low_add_lt {bits low m : ℕ} (hbits : 7 < bits) (hlow : low < 128) :
    low + 128 * m < 2 ^ bits ↔ m < 2 ^ (bits - 7) := by
  have hpow := two_pow_eq (Nat.not_le_of_lt hbits)
  omega

/-- If it is not nothing that is taken off the front, the first byte is taken. -/
theorem exists_front_cons {P : Bytes → Prop} (hP : ¬ P []) {b : UInt8} {bs rest : Bytes} :
    (∃ front, b :: bs = front ++ rest ∧ P front) ↔ ∃ front, bs = front ++ rest ∧ P (b :: front) := by
  constructor
  · rintro ⟨front, heq, h⟩
    cases front with
    | nil => exact absurd h hP
    | cons c front =>
      obtain ⟨rfl, htail⟩ := List.cons.inj heq
      exact ⟨front, htail, h⟩
  · rintro ⟨front, rfl, h⟩
    exact ⟨b :: front, rfl, h⟩

/-- A number that fits its field is read from any groups that make it up, as long as the last of them
still begins within the field; and nothing else is read. -/
theorem readNat_eq_ok {bits : ℕ} (hbits : 0 < bits) {n : ℕ} {bs rest : Bytes} :
    readNat bits bs = .ok (n, rest) ↔ ∃ front, bs = front ++ rest ∧ Numeral n front ∧
      7 * front.length < bits + 7 ∧ n < 2 ^ bits := by
  induction bs generalizing bits n with
  | nil =>
    refine ⟨fun h => (by cases h), ?_⟩
    rintro ⟨front, hnil, h, -⟩
    exact absurd (List.append_eq_nil_iff.mp hnil.symm).1 (numeral_ne_nil h)
  | cons b bs ih =>
    rw [exists_front_cons fun h => numeral_nil n h.1]
    by_cases hb : b.toNat < 128
    · rw [readNat_last hb]
      simp only [numeral_last hb]
      constructor
      · rintro ⟨hlt, rfl, rfl⟩
        exact ⟨[], rfl, ⟨rfl, rfl⟩, by simpa using hbits, hlt⟩
      · rintro ⟨_, heq, ⟨rfl, rfl⟩, -, hlt⟩
        exact ⟨hlt, rfl, heq.symm⟩
    · have hlow : b.toNat - 128 < 128 := by
        have := b.toNat_lt
        omega
      rw [readNat_more hb]
      simp only [numeral_more hb, List.length_cons]
      constructor
      · rintro ⟨hlarge, m, hread, rfl⟩
        obtain ⟨front, heq, h, hlen, hlt⟩ := (ih (by omega)).mp hread
        exact ⟨front, heq, ⟨m, h, rfl⟩, by omega, (low_add_lt hlarge hlow).mpr hlt⟩
      · rintro ⟨front, heq, ⟨m, h, rfl⟩, hlen, hlt⟩
        have hpos := List.length_pos_of_ne_nil (numeral_ne_nil h)
        have hlarge : 7 < bits := by omega
        exact ⟨hlarge, m, (ih (by omega)).mpr
          ⟨front, heq, h, by omega, (low_add_lt hlarge hlow).mp hlt⟩, rfl⟩

/-! ### Readers of several numbers -/

/-- The bytes are those of a number of 32 bits. -/
structure Word (n : ℕ) (bs : Bytes) : Prop extends Numeral n bs where
  short : bs.length ≤ 5
  fits : n < 2 ^ 32

/-- The bytes are those of some numbers of 32 bits, one after the other. -/
def Words : List ℕ → Bytes → Prop
  | [], bs => bs = []
  | n :: ns, bs => ∃ front back, bs = front ++ back ∧ Word n front ∧ Words ns back

theorem words_singleton (n : ℕ) (bs : Bytes) : Words [n] bs ↔ Word n bs := by
  simp [Words]

theorem Words.fits {ns : List ℕ} {bs : Bytes} (h : Words ns bs) : ∀ n ∈ ns, n < 2 ^ 32 := by
  induction ns generalizing bs with
  | nil => exact List.forall_mem_nil _
  | cons n ns ih =>
    obtain ⟨front, back, -, hw, hws⟩ := h
    exact List.forall_mem_cons.mpr ⟨hw.fits, ih hws⟩

theorem words_append (ns ms : List ℕ) (bs : Bytes) :
    Words (ns ++ ms) bs ↔ ∃ front back, bs = front ++ back ∧ Words ns front ∧ Words ms back := by
  induction ns generalizing bs with
  | nil => simp [Words]
  | cons n ns ih =>
    simp only [List.cons_append, Words, ih]
    constructor
    · rintro ⟨a, _, rfl, ha, b, c, rfl, hb, hc⟩
      exact ⟨a ++ b, c, (List.append_assoc ..).symm, ⟨a, b, rfl, ha, hb⟩, hc⟩
    · rintro ⟨_, c, rfl, ⟨a, b, rfl, ha, hb⟩, hc⟩
      exact ⟨a, b ++ c, List.append_assoc .., ha, b, c, rfl, hb, hc⟩

/-- A value is read exactly from the bytes of its numbers, and what follows is left. -/
def Spelled (r : Reader α) (numbers : α → List ℕ) : Prop :=
  ∀ bs a rest, r bs = .ok (a, rest) ↔ ∃ front, bs = front ++ rest ∧ Words (numbers a) front

theorem bind_of_ok {r : Reader α} {f : α → Reader β} {bs left : Bytes} {a : α}
    (h : r bs = .ok (a, left)) : (r >>= f) bs = f a left := by
  show Reader.bind r f bs = _
  rw [Reader.bind, h]

namespace Spelled

/-- A value that is read and then changed. -/
theorem map {r : Reader α} {numbers : α → List ℕ} (h : Spelled r numbers) {g : α → β}
    {numbers' : β → List ℕ} (hg : ∀ a front, Words (numbers a) front → numbers' (g a) = numbers a)
    (honto : ∀ b, ∃ a, g a = b ∧ numbers a = numbers' b) :
    Spelled (do let a ← r; pure (g a)) numbers' := fun bs b rest => by
  constructor
  · intro hr
    obtain ⟨a, left, ha, hb⟩ := bind_eq_ok hr
    obtain ⟨rfl, rfl⟩ := pure_eq_ok hb
    obtain ⟨front, hbs, hw⟩ := (h _ _ _).mp ha
    exact ⟨front, hbs, hg a front hw ▸ hw⟩
  · rintro ⟨front, hbs, hw⟩
    obtain ⟨a, rfl, hn⟩ := honto b
    rw [bind_of_ok ((h bs a rest).mpr ⟨front, hbs, hn ▸ hw⟩)]
    rfl

/-- Two values that are read one after the other and put together. -/
theorem pair {r : Reader α} {r' : Reader β} {ns : α → List ℕ} {ms : β → List ℕ} (h : Spelled r ns)
    (h' : Spelled r' ms) {g : α → β → γ} {numbers : γ → List ℕ}
    (hg : ∀ a b, numbers (g a b) = ns a ++ ms b) (honto : ∀ c, ∃ a b, g a b = c) :
    Spelled (do let a ← r; let b ← r'; pure (g a b)) numbers := fun bs c rest => by
  constructor
  · intro hr
    obtain ⟨a, left, ha, hr⟩ := bind_eq_ok hr
    obtain ⟨b, left', hb, hc⟩ := bind_eq_ok hr
    obtain ⟨rfl, rfl⟩ := pure_eq_ok hc
    obtain ⟨front, rfl, hns⟩ := (h _ _ _).mp ha
    obtain ⟨back, rfl, hms⟩ := (h' _ _ _).mp hb
    refine ⟨front ++ back, (List.append_assoc ..).symm, ?_⟩
    rw [hg, words_append]
    exact ⟨front, back, rfl, hns, hms⟩
  · rintro ⟨_, rfl, hw⟩
    obtain ⟨a, b, rfl⟩ := honto c
    rw [hg, words_append] at hw
    obtain ⟨front, back, rfl, hns, hms⟩ := hw
    rw [List.append_assoc, bind_of_ok ((h _ a _).mpr ⟨front, rfl, hns⟩),
      bind_of_ok ((h' _ b _).mpr ⟨back, rfl, hms⟩)]
    rfl

/-- What follows is ignored. -/
theorem decode_eq_ok {r : Reader α} {numbers : α → List ℕ} (h : Spelled r numbers) {bs : Bytes}
    {a : α} : r.decode bs = .ok a ↔ ∃ front rest, bs = front ++ rest ∧ Words (numbers a) front := by
  have hread : r.decode bs = .ok a ↔ ∃ rest, r bs = .ok (a, rest) := by
    unfold Reader.decode
    cases r bs with
    | error e => simp
    | ok out => simp [Prod.ext_iff]
  rw [hread, exists_comm]
  exact exists_congr fun rest => h bs a rest

end Spelled

theorem spelled_nat : Spelled (readNat 32) fun n => [n] := fun bs n rest => by
  rw [readNat_eq_ok (by decide)]
  refine exists_congr fun front => and_congr_right fun _ => ?_
  rw [words_singleton]
  constructor
  · rintro ⟨h, hlen, hlt⟩
    exact ⟨h, by omega, hlt⟩
  · rintro ⟨h, hlen, hlt⟩
    exact ⟨h, by omega, hlt⟩

theorem toNat_word {n : ℕ} (h : n < 2 ^ 32) : (UInt32.ofNat n).toNat = n := by
  rw [UInt32.toNat_ofNat', Nat.mod_eq_of_lt h]

theorem spelled_word : Spelled readWord fun w => [w.toNat] := by
  refine spelled_nat.map (fun n front h => ?_) fun w => ⟨w.toNat, UInt32.ofNat_toNat, rfl⟩
  rw [toNat_word ((words_singleton n front).mp h).fits]

theorem spelled_place : Spelled readPlace fun p => [p.index] :=
  spelled_word.map (fun _ _ _ => rfl) fun p => ⟨p.number, rfl, rfl⟩

theorem spelled_id : Spelled readId fun id => [id.home.index, id.serial.toNat] :=
  spelled_place.pair spelled_word (fun _ _ => rfl) fun id => ⟨id.home, id.serial, rfl⟩

end Quiescence.Wire
