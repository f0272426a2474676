/-
# Ids and tokens are carried exactly

An id is written as two numbers of 32 bits, and a token as those of its id and the
choice of its kind. What is written is read again, a proper part of it is not, and
besides nothing is read but from bytes that spell these numbers, padded or not.

* `spelled_token`: which bytes are read as a token.
* `Carried`: what a way of writing and a way of reading have to do with each other.
* `ids_and_tokens_carried`: both ids and tokens are carried so.
-/
import Quiescence.Proofs.Spelling
import Quiescence.Proofs.Truncation
import Quiescence.Token

namespace Quiescence.Wire

variable {α : Type}

/-! ### Kinds and tokens -/

theorem spelled_kind : Spelled readKind fun k => [k.choice] := fun bs k rest => by
  constructor
  · intro hr
    obtain ⟨n, left, hn, hk⟩ := bind_eq_ok hr
    split_ifs at hk with h0 h1
    · obtain ⟨rfl, rfl⟩ := pure_eq_ok hk
      subst h0
      exact (spelled_nat ..).mp hn
    · obtain ⟨rfl, rfl⟩ := pure_eq_ok hk
      subst h1
      exact (spelled_nat ..).mp hn
    · cases hk
  · intro h
    unfold readKind
    rw [bind_of_ok ((spelled_nat ..).mpr h)]
    cases k <;> rfl

theorem spelled_token :
    Spelled readToken fun t => [t.id.home.index, t.id.serial.toNat, t.kind.choice] :=
  spelled_id.pair spelled_kind (fun _ _ => rfl) fun t => ⟨t.id, t.kind, rfl⟩

theorem choice_lt (k : ScopeKind) : k.choice < 2 ^ 32 := by
  cases k <;> decide

theorem reads_id (id : GlobalId) : Reads readId (writeId id) id :=
  (reads_place id.home).bind ((reads_word id.serial).last (.pure id))

theorem strict_id (id : GlobalId) : Strict readId (writeId id) id :=
  (strict_place id.home).bind ((strict_word id.serial).last (.pure id))

theorem reads_kind (k : ScopeKind) : Reads readKind (writeKind k) k := by
  refine (reads_nat (choice_lt k)).last ?_
  cases k <;> exact .pure _

theorem strict_kind (k : ScopeKind) : Strict readKind (writeKind k) k := by
  refine (strict_nat (choice_lt k)).last ?_
  cases k <;> exact .pure _

theorem reads_token (t : Token) : Reads readToken (writeToken t) t :=
  (reads_id t.id).bind ((reads_kind t.kind).last (.pure t))

theorem strict_token (t : Token) : Strict readToken (writeToken t) t :=
  (strict_id t.id).bind ((strict_kind t.kind).last (.pure t))

/-! ### What is written and what is read -/

/-- A value is carried as some numbers. -/
structure Carried (write : α → Bytes) (read : Reader α) (numbers : α → List ℕ) : Prop where
  /-- It is read from what is written, whatever follows. -/
  whole : ∀ a rest, read.decode (write a ++ rest) = .ok a
  /-- From a proper part of that nothing is read. -/
  part : ∀ a front back, front ++ back = write a → back ≠ [] → read.decode front = .error .truncated
  /-- It is read from whatever begins with its numbers, and from nothing else. -/
  accepts : ∀ bs a, read.decode bs = .ok a ↔ ∃ front rest, bs = front ++ rest ∧ Words (numbers a) front
  inj : ∀ a b, write a = write b ↔ a = b

theorem Carried.intro {write : α → Bytes} {read : Reader α} {numbers : α → List ℕ}
    (hr : ∀ a, Reads read (write a) a) (hs : ∀ a, Strict read (write a) a)
    (hx : Spelled read numbers) : Carried write read numbers where
  whole a rest := (hr a).decode rest
  part a front back hf hb := by rw [Reader.decode, (hs a).part front back hf hb]
  accepts _ _ := hx.decode_eq_ok
  inj a b := by
    refine ⟨fun h => ?_, congrArg write⟩
    have ha := hr a []
    rw [h, hr b []] at ha
    exact (Prod.mk.inj (Except.ok.inj ha)).1.symm

/-- Two numbers that fit are those of an id. -/
theorem exists_id {home serial : ℕ} (hh : home < 2 ^ 32) (hs : serial < 2 ^ 32) :
    ∃ id : GlobalId, id.home.index = home ∧ id.serial.toNat = serial :=
  ⟨⟨⟨.ofNat home⟩, .ofNat serial⟩, toNat_word hh, toNat_word hs⟩

theorem exists_kind {k : ℕ} : (∃ kind : ScopeKind, kind.choice = k) ↔ k = 0 ∨ k = 1 := by
  constructor
  · rintro ⟨kind, rfl⟩
    cases kind
    · exact .inl rfl
    · exact .inr rfl
  · rintro (rfl | rfl)
    · exact ⟨.plain, rfl⟩
    · exact ⟨.debug, rfl⟩

theorem decode_id_isOk (bs : Bytes) : (∃ id, readId.decode bs = .ok id) ↔
    ∃ home serial front rest, bs = front ++ rest ∧ Words [home, serial] front := by
  constructor
  · rintro ⟨id, h⟩
    obtain ⟨front, rest, hbs, hw⟩ := spelled_id.decode_eq_ok.mp h
    exact ⟨_, _, front, rest, hbs, hw⟩
  · rintro ⟨home, serial, front, rest, hbs, hw⟩
    obtain ⟨id, rfl, rfl⟩ := exists_id (hw.fits home (by simp)) (hw.fits serial (by simp))
    exact ⟨id, spelled_id.decode_eq_ok.mpr ⟨front, rest, hbs, hw⟩⟩

theorem decode_token_isOk (bs : Bytes) : (∃ t, readToken.decode bs = .ok t) ↔
    ∃ home serial kind front rest, bs = front ++ rest ∧ Words [home, serial, kind] front ∧
      (kind = 0 ∨ kind = 1) := by
  constructor
  · rintro ⟨t, h⟩
    obtain ⟨front, rest, hbs, hw⟩ := spelled_token.decode_eq_ok.mp h
    exact ⟨_, _, _, front, rest, hbs, hw, exists_kind.mp ⟨t.kind, rfl⟩⟩
  · rintro ⟨home, serial, k, front, rest, hbs, hw, hk⟩
    obtain ⟨id, rfl, rfl⟩ := exists_id (hw.fits home (by simp)) (hw.fits serial (by simp))
    obtain ⟨kind, rfl⟩ := exists_kind.mpr hk
    exact ⟨⟨id, kind⟩, spelled_token.decode_eq_ok.mpr ⟨front, rest, hbs, hw⟩⟩

/-! ### All of it -/

/-- **Ids and tokens are carried exactly.** They are read from what they are written in, whatever
follows, and not from a part of it; what is read at all are numbers of 32 bits, each in five bytes at
most, two for an id and for a token a third that is 0 or 1; and equal ones are those that are written
alike. -/
theorem ids_and_tokens_carried :
    Carried writeId readId (fun id => [id.home.index, id.serial.toNat]) ∧
    Carried writeToken readToken (fun t => [t.id.home.index, t.id.serial.toNat, t.kind.choice]) ∧
    (∀ bs, (∃ id, readId.decode bs = .ok id) ↔
      ∃ home serial front rest, bs = front ++ rest ∧ Words [home, serial] front) ∧
    (∀ bs, (∃ t, readToken.decode bs = .ok t) ↔
      ∃ home serial kind front rest, bs = front ++ rest ∧ Words [home, serial, kind] front ∧
        (kind = 0 ∨ kind = 1)) ∧
    (∀ a b : GlobalId, writeId a = writeId b ↔ a.gid = b.gid) ∧
    ∀ t u : Token, writeToken t = writeToken u ↔ t.id.gid = u.id.gid ∧ t.kind = u.kind := by
  have hid := Carried.intro reads_id strict_id spelled_id
  have htoken := Carried.intro reads_token strict_token spelled_token
  refine ⟨hid, htoken, decode_id_isOk, decode_token_isOk, fun a b => ?_, fun t u => ?_⟩
  · rw [hid.inj, GlobalId.gid_inj]
  · rw [htoken.inj, GlobalId.gid_inj]
    cases t; cases u
    simp

/-- The largest number, and one that is padded: the fifth byte of a number may be `0x0f`, and `0`. -/
example : readId.decode [0xff, 0xff, 0xff, 0xff, 0x0f, 0x81, 0x80, 0x80, 0x80, 0] =
    .ok ⟨⟨0xffffffff⟩, 1⟩ := by decide +kernel

/-- Not `0x10`, nor one that says that more follow. -/
example : readId.decode [0xff, 0xff, 0xff, 0xff, 0x10, 0] = .error .overlong ∧
    readId.decode [0x80, 0x80, 0x80, 0x80, 0x80, 0, 0] = .error .overlong := by decide +kernel

end Quiescence.Wire
