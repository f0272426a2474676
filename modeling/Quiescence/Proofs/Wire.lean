/-
# What is written can be read

`Reads r bs a` says that the reader takes `a` off the front of whatever begins
with `bs`, and leaves the rest. Readers are put together from others, and so are
these facts: there is one for each writer.

A reader accepts no number beyond the width of its field, so lengths are below
`2 ^ 64` throughout, as every length in memory is.
-/
import Mathlib.Algebra.Group.Nat.Defs
import Mathlib.Data.List.Basic
import Quiescence.Wire

namespace Quiescence.Wire

variable {α β : Type}

/-- The reader takes the value off the front of some bytes, whatever follows. -/
def Reads (r : Reader α) (bs : Bytes) (a : α) : Prop := ∀ rest, r (bs ++ rest) = .ok (a, rest)

namespace Reads

theorem pure (a : α) : Reads (Pure.pure a) [] a := fun _ => rfl

theorem bind {r : Reader α} {f : α → Reader β} {bs bs' : Bytes} {a : α} {b : β}
    (h : Reads r bs a) (h' : Reads (f a) bs' b) : Reads (r >>= f) (bs ++ bs') b := fun rest => by
  show Reader.bind r f (bs ++ bs' ++ rest) = _
  rw [List.append_assoc, Reader.bind, h (bs' ++ rest)]
  exact h' rest

/-- Nothing more is read. -/
theorem last {r : Reader α} {f : α → Reader β} {bs : Bytes} {a : α} {b : β}
    (h : Reads r bs a) (h' : Reads (f a) [] b) : Reads (r >>= f) bs b := by
  have := h.bind h'
  rwa [List.append_nil] at this

theorem decode {r : Reader α} {bs : Bytes} {a : α} (h : Reads r bs a) (rest : Bytes) :
    r.decode (bs ++ rest) = .ok a := by
  rw [Reader.decode, h rest]

end Reads

/-! ### Numbers -/

theorem writeNat_small {n : ℕ} (h : n < 128) : writeNat n = [UInt8.ofNat n] := by
  rw [writeNat, if_pos h]

theorem writeNat_large {n : ℕ} (h : ¬ n < 128) :
    writeNat n = UInt8.ofNat (n % 128 + 128) :: writeNat (n / 128) := by
  rw [writeNat, if_neg h]

theorem toNat_byte {n : ℕ} (h : n < 256) : (UInt8.ofNat n).toNat = n := by
  simp [UInt8.toNat_ofNat', Nat.mod_eq_of_lt h]

/-- A number takes a byte at least. -/
theorem writeNat_ne_nil (n : ℕ) : writeNat n ≠ [] := by
  rw [writeNat]
  split <;> simp

/-- A number that takes more than one byte needs more than seven bits. -/
theorem large_of_not_small {bits n : ℕ} (h : n < 2 ^ bits) (hn : ¬ n < 128) : ¬ bits ≤ 7 := fun hle => by
  have : 2 ^ bits ≤ 2 ^ 7 := Nat.pow_le_pow_right (by decide) hle
  omega

theorem two_pow_eq {bits : ℕ} (h : ¬ bits ≤ 7) : 2 ^ bits = 128 * 2 ^ (bits - 7) := by
  rw [show (128 : ℕ) = 2 ^ 7 by decide, ← Nat.pow_add]
  congr 1
  omega

/-- After the first byte, the rest of a number has seven bits less. -/
theorem rest_lt {bits n : ℕ} (h : n < 2 ^ bits) (hn : ¬ n < 128) : n / 128 < 2 ^ (bits - 7) := by
  have hpow := two_pow_eq (large_of_not_small h hn)
  omega

theorem reads_nat {bits n : ℕ} (h : n < 2 ^ bits) : Reads (readNat bits) (writeNat n) n := by
  intro rest
  induction n using Nat.strongRecOn generalizing bits with
  | ind n ih =>
    by_cases hn : n < 128
    · rw [writeNat_small hn]
      have hb : (UInt8.ofNat n).toNat = n := toNat_byte (by omega)
      simp [readNat, hb, hn, h]
    · have hb : (UInt8.ofNat (n % 128 + 128)).toNat = n % 128 + 128 := toNat_byte (by omega)
      have hbits := large_of_not_small h hn
      rw [writeNat_large hn]
      simp only [List.cons_append, readNat, hb, hbits, ih (n / 128) (by omega) (rest_lt h hn)]
      simp only [show ¬ n % 128 + 128 < 128 by omega, if_false, Except.ok.injEq, Prod.mk.injEq,
        and_true]
      omega

theorem reads_word (w : UInt32) : Reads readWord (writeWord w) w := by
  refine (reads_nat w.toNat_lt).last ?_
  rw [UInt32.ofNat_toNat]
  exact .pure w

theorem reads_length {n : ℕ} (h : n < 2 ^ 64) : Reads readLength (writeNat n) n := reads_nat h

theorem reads_place (p : PlaceId) : Reads readPlace (writePlace p) p :=
  (reads_word p.number).last (.pure p)

/-! ### Texts, optional values, lists -/

theorem reads_bytes (bs : Bytes) : Reads (readBytes bs.length) bs bs := fun rest => by
  simp [readBytes]

/-- The bytes of a text are those of a text. -/
theorem fromUTF8?_toByteArray (s : String) : String.fromUTF8? s.toByteArray = some s := by
  simp [String.fromUTF8?, s.isValidUTF8, String.fromUTF8]

theorem length_text (s : String) : s.toByteArray.data.toList.length = s.utf8ByteSize := by
  rw [Array.length_toList, ← String.size_toByteArray]
  rfl

theorem reads_text {s : String} (h : s.utf8ByteSize < 2 ^ 64) : Reads readText (writeText s) s := by
  have hbytes := reads_bytes s.toByteArray.data.toList
  rw [length_text] at hbytes
  refine (reads_length h).bind (hbytes.last ?_)
  rw [Array.toArray_toList, fromUTF8?_toByteArray]
  exact .pure s

theorem reads_none (r : Reader α) : Reads (readOption r) [0] none := fun _ => rfl

theorem reads_some {r : Reader α} {bs : Bytes} {a : α} (h : Reads r bs a) :
    Reads (readOption r) (1 :: bs) (some a) := by
  have h' : Reads (do let a ← r; Pure.pure (some a)) bs (some a) := h.last (.pure (some a))
  exact fun rest => h' rest

/-- Values written one after the other, by any writer. -/
theorem reads_many {r : Reader α} {write : α → Bytes} (as : List α)
    (h : ∀ a ∈ as, Reads r (write a) a) : Reads (readMany r as.length) (as.flatMap write) as := by
  induction as with
  | nil => exact .pure []
  | cons a as ih =>
    have h1 := h a (List.mem_cons_self ..)
    have h2 := ih fun x hx => h x (List.mem_cons_of_mem _ hx)
    exact h1.bind (h2.last (.pure (a :: as)))

theorem reads_list {r : Reader α} {write : α → Bytes} {as : List α} (hlen : as.length < 2 ^ 64)
    (h : ∀ a ∈ as, Reads r (write a) a) :
    Reads (readList r) (writeNat as.length ++ as.flatMap write) as :=
  (reads_length hlen).bind (reads_many as h)

end Quiescence.Wire
