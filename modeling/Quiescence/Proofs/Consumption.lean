/-
# What a reader takes for a value

`Covers r write P` says of a reader that for each value it takes off the front of
some bytes it takes as many of them as the value is written in, or more, and that
the value satisfies `P`. It may take more: numbers may be padded with zero groups.
As with `Reads` and `Strict`, there is one fact for each reader.
-/
import Quiescence.Proofs.Wire

namespace Quiescence.Wire

variable {α β : Type}

/-- The reader takes no fewer bytes for a value than it is written in, and takes none but such that
satisfy `P`. -/
def Covers (r : Reader α) (write : α → Bytes) (P : α → Prop) : Prop :=
  ∀ bs a rest, r bs = .ok (a, rest) → P a ∧ (write a).length + rest.length ≤ bs.length

/-! ### Readers that are put together from others -/

theorem pure_eq_ok {a b : α} {bs rest : Bytes} (h : (pure a : Reader α) bs = .ok (b, rest)) :
    b = a ∧ rest = bs := by
  obtain ⟨rfl, rfl⟩ := Prod.mk.inj (Except.ok.inj (show Except.ok (a, bs) = _ from h))
  exact ⟨rfl, rfl⟩

/-- One value has been read, and the other from what was left. -/
theorem bind_eq_ok {r : Reader α} {f : α → Reader β} {bs rest : Bytes} {b : β}
    (h : (r >>= f) bs = .ok (b, rest)) :
    ∃ a left, r bs = .ok (a, left) ∧ f a left = .ok (b, rest) := by
  replace h : Reader.bind r f bs = .ok (b, rest) := h
  unfold Reader.bind at h
  split at h
  · exact ⟨_, _, ‹_›, h⟩
  · cases h

/-- A value that is read and then changed. -/
theorem Covers.map {r : Reader α} {write : α → Bytes} {P : α → Prop} (h : Covers r write P)
    {g : α → β} {write' : β → Bytes} {P' : β → Prop}
    (hg : ∀ a, P a → P' (g a) ∧ (write' (g a)).length ≤ (write a).length) :
    Covers (do let a ← r; pure (g a)) write' P' := fun bs b rest hr => by
  obtain ⟨a, left, ha, hb⟩ := bind_eq_ok hr
  obtain ⟨rfl, rfl⟩ := pure_eq_ok hb
  obtain ⟨hp, hlen⟩ := h _ _ _ ha
  obtain ⟨hp', hlen'⟩ := hg a hp
  exact ⟨hp', by omega⟩

/-! ### Numbers -/

theorem covers_nat (bits : ℕ) : Covers (readNat bits) writeNat (· < 2 ^ bits) := fun bs => by
  induction bs generalizing bits with
  | nil => intro n rest h; cases h
  | cons b bs ih =>
    intro n rest h
    rw [readNat] at h
    have hpow : Nat.pow 2 bits = 2 ^ bits := rfl
    split at h
    · rename_i hb
      split at h
      · obtain ⟨rfl, rfl⟩ := Prod.mk.inj (Except.ok.inj h)
        rw [writeNat_small hb]
        exact ⟨by omega, by simp; omega⟩
      · cases h
    · rename_i hb
      split at h
      · cases h
      · rename_i hbits
        split at h
        · rename_i high left hread
          obtain ⟨hlt, hlen⟩ := ih (bits - 7) high left hread
          obtain ⟨rfl, rfl⟩ := Prod.mk.inj (Except.ok.inj h)
          have hbyte : b.toNat < 256 := b.toNat_lt
          have hsplit := two_pow_eq hbits
          refine ⟨by omega, ?_⟩
          rw [List.length_cons]
          by_cases hn : b.toNat - 128 + 128 * high < 128
          · -- all the groups above the first are zero
            rw [writeNat_small hn, List.length_singleton]
            omega
          · rw [writeNat_large hn, List.length_cons,
              show (b.toNat - 128 + 128 * high) / 128 = high by omega]
            omega
        · cases h

theorem covers_word : Covers readWord writeWord fun _ => True :=
  (covers_nat 32).map fun n hn => by
    rw [writeWord, UInt32.toNat_ofNat', Nat.mod_eq_of_lt hn]
    exact ⟨trivial, Nat.le_refl _⟩

theorem covers_place : Covers readPlace writePlace fun _ => True :=
  covers_word.map fun _ _ => ⟨trivial, Nat.le_refl _⟩

/-! ### Texts, optional values, lists -/

theorem readBytes_eq_ok {n : ℕ} {bs front rest : Bytes} (h : readBytes n bs = .ok (front, rest)) :
    front.length = n ∧ bs.length = n + rest.length := by
  unfold readBytes at h
  split at h
  · rename_i hn
    obtain ⟨rfl, rfl⟩ := Prod.mk.inj (Except.ok.inj h)
    simp only [List.length_take, List.length_drop]
    omega
  · cases h

theorem utf8ByteSize_of_fromUTF8? {bs : Bytes} {s : String}
    (h : String.fromUTF8? ⟨bs.toArray⟩ = some s) : s.utf8ByteSize = bs.length := by
  unfold String.fromUTF8? at h
  split at h
  · obtain rfl := Option.some.inj h
    rfl
  · cases h

theorem covers_text : Covers readText writeText (·.utf8ByteSize < 2 ^ 64) := fun bs s rest h => by
  obtain ⟨n, left, hn, h⟩ := bind_eq_ok h
  obtain ⟨front, left', hfront, h⟩ := bind_eq_ok h
  obtain ⟨hlt, hlen⟩ := covers_nat 64 _ _ _ hn
  obtain ⟨hsize, hleft⟩ := readBytes_eq_ok hfront
  cases ht : String.fromUTF8? ⟨front.toArray⟩ with
  | none =>
    rw [ht] at h
    cases h
  | some t =>
    rw [ht] at h
    obtain ⟨rfl, rfl⟩ := pure_eq_ok h
    obtain rfl : s.utf8ByteSize = n := (utf8ByteSize_of_fromUTF8? ht).trans hsize
    rw [writeText, List.length_append, length_text]
    exact ⟨hlt, by omega⟩

theorem covers_option {r : Reader α} {write : α → Bytes} {P : α → Prop} (h : Covers r write P) :
    Covers (readOption r) (writeOption write) fun o => ∀ a ∈ o, P a := fun bs o rest hr => by
  unfold readOption at hr
  split at hr
  · cases hr
  · split at hr
    · obtain ⟨rfl, rfl⟩ := Prod.mk.inj (Except.ok.inj hr)
      exact ⟨nofun, by simp [writeOption]; omega⟩
    · split at hr
      · obtain ⟨a, left, ha, hb⟩ := bind_eq_ok hr
        obtain ⟨rfl, rfl⟩ := pure_eq_ok hb
        obtain ⟨hp, hlen⟩ := h _ _ _ ha
        refine ⟨fun x hx => Option.some.inj hx ▸ hp, ?_⟩
        simp only [writeOption, List.length_cons]
        omega
      · cases hr

/-- Values read one after the other. -/
theorem covers_many {r : Reader α} {write : α → Bytes} {P : α → Prop} (h : Covers r write P)
    (n : ℕ) : Covers (readMany r n) (·.flatMap write) fun as => as.length = n ∧ ∀ a ∈ as, P a := by
  induction n with
  | zero =>
    intro bs as rest hr
    obtain ⟨rfl, rfl⟩ := pure_eq_ok hr
    exact ⟨⟨rfl, List.forall_mem_nil _⟩, by simp⟩
  | succ n ih =>
    intro bs as rest hr
    obtain ⟨a, left, ha, hr⟩ := bind_eq_ok hr
    obtain ⟨as', left', has, hr⟩ := bind_eq_ok hr
    obtain ⟨rfl, rfl⟩ := pure_eq_ok hr
    obtain ⟨hp, hlen⟩ := h _ _ _ ha
    obtain ⟨⟨hn, hps⟩, hlens⟩ := ih _ _ _ has
    refine ⟨⟨congrArg (· + 1) hn, List.forall_mem_cons.mpr ⟨hp, hps⟩⟩, ?_⟩
    simp only [List.flatMap_cons, List.length_append] at hlens ⊢
    omega

theorem covers_list {r : Reader α} {write : α → Bytes} {P : α → Prop} (h : Covers r write P) :
    Covers (readList r) (fun as => writeNat as.length ++ as.flatMap write) fun as =>
      as.length < 2 ^ 64 ∧ ∀ a ∈ as, P a := fun bs as rest hr => by
  obtain ⟨n, left, hn, hr⟩ := bind_eq_ok hr
  obtain ⟨hlt, hlen⟩ := covers_nat 64 _ _ _ hn
  obtain ⟨⟨rfl, hp⟩, hlens⟩ := covers_many h n _ _ _ hr
  refine ⟨⟨hlt, hp⟩, ?_⟩
  simp only [List.length_append] at hlens ⊢
  omega

end Quiescence.Wire
