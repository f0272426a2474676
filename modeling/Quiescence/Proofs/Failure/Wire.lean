/-
# A failure survives its transport

What is read from the bytes of a failure is the failure in its canonical form
(`decode_encode`), whatever bytes follow. The depth to which a failure is read
is the number of bytes there are; each level of it takes a byte at least, so
that is deep enough (`reads_write`).
-/
import Quiescence.Failure.Wire
import Quiescence.Proofs.Wire

namespace Quiescence.Failure

open Wire

/-! ### Lengths -/

/-- The length of a text fits its field. -/
def fitsText (s : String) : Bool := s.utf8ByteSize < 2 ^ 64

mutual

/-- Every length in the failure fits its field, at every depth. -/
def fits : Failure → Bool
  | ⟨k, m, _, b, c, s⟩ =>
    fitsText k && fitsText m && b.all fitsText && fitsCause c && fitsNested s

def fitsCause : Option Failure → Bool
  | none => true
  | some f => fits f

def fitsNested : Option (List Failure) → Bool
  | none => true
  | some fs => fs.length < 2 ^ 64 && fitsAll fs

def fitsAll : List Failure → Bool
  | [] => true
  | f :: fs => fits f && fitsAll fs

end

/-! ### The canonical form -/

theorem length_normalizeAll (fs : List Failure) : (normalizeAll fs).length = fs.length := by
  induction fs with
  | nil => rfl
  | cons f fs ih => simp [normalizeAll, ih]

mutual

theorem normalize_normalize : ∀ f : Failure, f.normalize.normalize = f.normalize
  | ⟨k, m, p, b, c, s⟩ => by
    simp only [normalize, normalizeCause_normalizeCause c, normalizeNested_normalizeNested s]

theorem normalizeCause_normalizeCause :
    ∀ c : Option Failure, normalizeCause (normalizeCause c) = normalizeCause c
  | none => rfl
  | some f => by simp only [normalizeCause, normalize_normalize f]

theorem normalizeNested_normalizeNested :
    ∀ s : Option (List Failure), normalizeNested (normalizeNested s) = normalizeNested s
  | none => rfl
  | some [] => rfl
  | some (f :: fs) => by
    simp only [normalizeNested, normalize_normalize f, normalizeAll_normalizeAll fs]

theorem normalizeAll_normalizeAll :
    ∀ fs : List Failure, normalizeAll (normalizeAll fs) = normalizeAll fs
  | [] => rfl
  | f :: fs => by
    simp only [normalizeAll, normalize_normalize f, normalizeAll_normalizeAll fs]

end

mutual

theorem fits_normalize : ∀ f : Failure, f.fits = true → f.normalize.fits = true
  | ⟨k, m, p, b, c, s⟩, h => by
    simp only [fits, Bool.and_eq_true] at h
    obtain ⟨⟨h1, h2⟩, h3⟩ := h
    simp only [normalize, fits, Bool.and_eq_true]
    exact ⟨⟨h1, fitsCause_normalizeCause c h2⟩, fitsNested_normalizeNested s h3⟩

theorem fitsCause_normalizeCause :
    ∀ c : Option Failure, fitsCause c = true → fitsCause (normalizeCause c) = true
  | none, _ => rfl
  | some f, h => fits_normalize f h

theorem fitsNested_normalizeNested :
    ∀ s : Option (List Failure), fitsNested s = true → fitsNested (normalizeNested s) = true
  | none, _ => rfl
  | some [], _ => rfl
  | some (f :: fs), h => by
    simp only [fitsNested, fitsAll, Bool.and_eq_true, List.length_cons] at h
    simp only [normalizeNested, fitsNested, fitsAll, Bool.and_eq_true, List.length_cons,
      length_normalizeAll]
    exact ⟨h.1, fits_normalize f h.2.1, fitsAll_normalizeAll fs h.2.2⟩

theorem fitsAll_normalizeAll :
    ∀ fs : List Failure, fitsAll fs = true → fitsAll (normalizeAll fs) = true
  | [], _ => rfl
  | f :: fs, h => by
    simp only [fitsAll, Bool.and_eq_true] at h
    simp only [normalizeAll, fitsAll, Bool.and_eq_true]
    exact ⟨fits_normalize f h.1, fitsAll_normalizeAll fs h.2⟩

end

/-! ### Reading what was written -/

theorem writeAll_eq (fs : List Failure) : writeAll fs = fs.flatMap write := by
  induction fs with
  | nil => rfl
  | cons f fs ih => rw [writeAll, ih, List.flatMap_cons]

theorem length_writeText (s : String) : 1 ≤ (writeText s).length := by
  have := List.length_pos_of_ne_nil (writeNat_ne_nil s.utf8ByteSize)
  rw [writeText, List.length_append]
  omega

theorem reads_backtrace (b : Option String) (h : b.all fitsText = true) :
    Reads (readOption readText) (writeOption writeText b) b := by
  cases b with
  | none => exact reads_none _
  | some t => exact reads_some (reads_text (by simpa [fitsText] using h))

mutual

/-- At a depth of as many bytes as there are, all of the failure is read. -/
theorem reads_write : ∀ (f : Failure) (n : ℕ), f.fits = true → f.write.length ≤ n →
    Reads (read n) f.write f
  | ⟨k, m, p, b, c, s⟩, n, hf, hn => by
    simp only [fits, Bool.and_eq_true] at hf
    obtain ⟨⟨⟨⟨h1, h2⟩, h3⟩, h4⟩, h5⟩ := hf
    simp only [write, List.length_append] at hn
    have hk := length_writeText k
    obtain ⟨n, rfl⟩ : ∃ n', n = n' + 1 := ⟨n - 1, by omega⟩
    simp only [write, read, List.append_assoc]
    refine (reads_text (by simpa [fitsText] using h1)).bind ?_
    refine (reads_text (by simpa [fitsText] using h2)).bind ?_
    refine (reads_place p).bind ((reads_backtrace b h3).bind ?_)
    refine (reads_cause c n h4 (by omega)).bind ((reads_nested s n h5 (by omega)).last ?_)
    exact .pure _

theorem reads_cause : ∀ (c : Option Failure) (n : ℕ), fitsCause c = true →
    (writeCause c).length ≤ n → Reads (readOption (read n)) (writeCause c) c
  | none, _, _, _ => reads_none _
  | some f, n, hf, hn => by
    simp only [writeCause, List.length_cons] at hn
    exact reads_some (reads_write f n hf (by omega))

theorem reads_nested : ∀ (s : Option (List Failure)) (n : ℕ), fitsNested s = true →
    (writeNested s).length ≤ n → Reads (readOption (readList (read n))) (writeNested s) s
  | none, _, _, _ => reads_none _
  | some fs, n, hf, hn => by
    simp only [fitsNested, Bool.and_eq_true, decide_eq_true_eq] at hf
    simp only [writeNested, List.length_cons, List.length_append] at hn
    refine reads_some ?_
    rw [writeAll_eq]
    exact reads_list hf.1 (reads_all fs n hf.2 (by omega))

theorem reads_all : ∀ (fs : List Failure) (n : ℕ), fitsAll fs = true →
    (writeAll fs).length ≤ n → ∀ f ∈ fs, Reads (read n) f.write f
  | [], _, _, _ => by simp
  | g :: fs, n, hf, hn => by
    simp only [fitsAll, Bool.and_eq_true] at hf
    simp only [writeAll, List.length_append] at hn
    intro f hm
    rcases List.mem_cons.mp hm with hfg | hm
    · rw [hfg]
      exact reads_write g n hf.1 (by omega)
    · exact reads_all fs n hf.2 (by omega) f hm

end

/-- What arrives is the failure in its canonical form. -/
theorem decode_encode {f : Failure} (h : f.fits = true) (rest : Bytes) :
    decode (f.encode ++ rest) = .ok f.normalize := by
  have hr : Reads (read ((f.encode ++ rest).length + 1)) f.encode f.normalize :=
    reads_write f.normalize _ (fits_normalize f h) (by simp only [encode, List.length_append]; omega)
  rw [decode, hr.decode rest]
  exact congrArg Except.ok (normalize_normalize f)

end Quiescence.Failure
