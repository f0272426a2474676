/-
# What a failure is after its transport

* `strict_write`, `decode_part`: of a part of the bytes of a failure nothing is
  read; they end too early.
* `node?_normalize`: the canonical form has the same nodes, reached by the same
  ways through causes and nested failures, and each is the canonical form of the
  node that was there (`Collapsed`).
* `survives_transport`: all of it together.

A length beyond 64 bits, which no place can hold, is not read back: hence `fits`.
-/
import Quiescence.Proofs.Failure.Wire
import Quiescence.Proofs.Truncation

namespace Quiescence.Failure

open Wire

/-! ### A part of what was written -/

theorem strict_backtrace (b : Option String) (h : b.all fitsText = true) :
    Strict (readOption readText) (writeOption writeText b) b := by
  cases b with
  | none => exact strict_none _
  | some t => exact strict_some (strict_text (by simpa [fitsText] using h))

mutual

/-- At any depth: where it is not deep enough the bytes are taken to end too early. -/
theorem strict_write : ∀ (f : Failure) (n : ℕ), f.fits = true → Strict (read n) f.write f
  | _, 0, _ => .fail _ _
  | ⟨k, m, p, b, c, s⟩, n + 1, hf => by
    simp only [fits, Bool.and_eq_true] at hf
    obtain ⟨⟨⟨⟨h1, h2⟩, h3⟩, h4⟩, h5⟩ := hf
    simp only [write, read, List.append_assoc]
    refine (strict_text (by simpa [fitsText] using h1)).bind ?_
    refine (strict_text (by simpa [fitsText] using h2)).bind ?_
    refine (strict_place p).bind ((strict_backtrace b h3).bind ?_)
    refine (strict_cause c n h4).bind ((strict_nested s n h5).last ?_)
    exact .pure _

theorem strict_cause : ∀ (c : Option Failure) (n : ℕ), fitsCause c = true →
    Strict (readOption (read n)) (writeCause c) c
  | none, _, _ => strict_none _
  | some f, n, hf => strict_some (strict_write f n hf)

theorem strict_nested : ∀ (s : Option (List Failure)) (n : ℕ), fitsNested s = true →
    Strict (readOption (readList (read n))) (writeNested s) s
  | none, _, _ => strict_none _
  | some fs, n, hf => by
    simp only [fitsNested, Bool.and_eq_true, decide_eq_true_eq] at hf
    refine strict_some ?_
    rw [writeAll_eq]
    exact strict_list hf.1 (strict_all fs n hf.2)

theorem strict_all : ∀ (fs : List Failure) (n : ℕ), fitsAll fs = true →
    ∀ f ∈ fs, Strict (read n) f.write f
  | [], _, _ => by simp
  | g :: fs, n, hf => by
    simp only [fitsAll, Bool.and_eq_true] at hf
    intro f hm
    rcases List.mem_cons.mp hm with hfg | hm
    · rw [hfg]
      exact strict_write g n hf.1
    · exact strict_all fs n hf.2 f hm

end

/-- Of a proper part of the bytes of a failure nothing is read. -/
theorem decode_part {f : Failure} (h : f.fits = true) {front back : Bytes}
    (hf : front ++ back = f.encode) (hb : back ≠ []) : decode front = .error .truncated := by
  have hs := strict_write f.normalize (front.length + 1) (fits_normalize f h)
  rw [decode, Reader.decode, hs.part front back hf hb]

/-- Failures are told apart by their bytes just as far as their canonical forms differ. -/
theorem encode_inj {f g : Failure} (hf : f.fits = true) (hg : g.fits = true) :
    f.encode = g.encode ↔ f.normalize = g.normalize := by
  constructor
  · intro h
    have h1 := decode_encode hf []
    have h2 := decode_encode hg []
    rw [h, h2] at h1
    exact (Except.ok.inj h1).symm
  · intro h
    rw [encode, encode, h]

/-! ### The nodes of a failure -/

/-- The way from a failure to one that it holds. -/
inductive Branch where
  | cause
  | nested (n : ℕ)

def child? (f : Failure) : Branch → Option Failure
  | .cause => f.cause
  | .nested n => f.nested[n]?

/-- What is reached by a number of branches, one after the other. -/
def node? (f : Failure) : List Branch → Option Failure
  | [] => some f
  | b :: path => (f.child? b).bind fun g => g.node? path

/-- `g` is `f` but for lists of nested failures that are empty: in `g` there are none. -/
structure Collapsed (f g : Failure) : Prop where
  kind : g.kind = f.kind
  message : g.message = f.message
  place : g.place = f.place
  backtrace : g.backtrace = f.backtrace
  cause : g.cause = f.cause.map normalize
  chain : g.chain = f.chain.map normalize
  nested : g.nested = f.nested.map normalize
  suppressed : g.suppressed = if f.nested = [] then none else f.suppressed.map (List.map normalize)

theorem normalizeCause_eq (c : Option Failure) : normalizeCause c = c.map normalize := by
  cases c <;> rfl

theorem normalizeAll_eq (fs : List Failure) : normalizeAll fs = fs.map normalize := by
  induction fs with
  | nil => rfl
  | cons f fs ih => rw [normalizeAll, ih, List.map_cons]

theorem suppressed_normalize (f : Failure) : f.normalize.suppressed =
    if f.nested = [] then none else f.suppressed.map (List.map normalize) := by
  obtain ⟨k, m, p, b, c, _ | _ | ⟨g, gs⟩⟩ := f
  · rfl
  · rfl
  · simp [normalize, normalizeNested, nested, normalizeAll_eq]

theorem nested_normalize (f : Failure) : f.normalize.nested = f.nested.map normalize := by
  rw [nested, suppressed_normalize]
  split_ifs with h
  · rw [h]
    rfl
  · cases hs : f.suppressed with
    | none => simp [nested, hs] at h
    | some fs => simp [nested, hs]

mutual

theorem chain_normalize : ∀ f : Failure, f.normalize.chain = f.chain.map normalize
  | ⟨k, m, p, b, c, s⟩ => by
    simp only [normalize, chain, List.map_cons, chainOfCause_normalizeCause c]

theorem chainOfCause_normalizeCause :
    ∀ c : Option Failure, chainOfCause (normalizeCause c) = (chainOfCause c).map normalize
  | none => rfl
  | some f => chain_normalize f

end

theorem cause_normalize (f : Failure) : f.normalize.cause = f.cause.map normalize := by
  obtain ⟨k, m, p, b, c, s⟩ := f
  exact normalizeCause_eq c

theorem collapsed_normalize (f : Failure) : Collapsed f f.normalize := by
  refine ⟨?_, ?_, ?_, ?_, cause_normalize f, chain_normalize f, nested_normalize f,
    suppressed_normalize f⟩ <;> (cases f; rfl)

theorem child?_normalize (f : Failure) (b : Branch) :
    f.normalize.child? b = (f.child? b).map normalize := by
  cases b with
  | cause => exact cause_normalize f
  | nested n => rw [child?, nested_normalize, List.getElem?_map, child?]

/-- The canonical form has the nodes of the failure, each in its canonical form. -/
theorem node?_normalize (f : Failure) (path : List Branch) :
    f.normalize.node? path = (f.node? path).map normalize := by
  induction path generalizing f with
  | nil => rfl
  | cons b path ih =>
    rw [node?, node?, child?_normalize]
    cases f.child? b with
    | none => rfl
    | some g => exact ih g

/-! ### All of it -/

/-- What arrives is the failure in its canonical form, whatever bytes follow; if bytes are missing
nothing arrives. Failures have the same bytes exactly if they have the same canonical form, which
differs from the failure in nothing, at any node, but that lists without a failure are gone. -/
theorem survives_transport {f : Failure} (h : f.fits = true) :
    (∀ rest, decode (f.encode ++ rest) = .ok f.normalize) ∧
    (∀ front back, front ++ back = f.encode → back ≠ [] → decode front = .error .truncated) ∧
    (∀ g : Failure, g.fits = true → (f.encode = g.encode ↔ f.normalize = g.normalize)) ∧
    f.normalize.normalize = f.normalize ∧
    ∀ path, Option.Rel Collapsed (f.node? path) (f.normalize.node? path) := by
  refine ⟨decode_encode h, fun front back => decode_part h, fun g => encode_inj h,
    normalize_normalize f, ?_⟩
  intro path
  rw [node?_normalize]
  cases f.node? path with
  | none => exact .none
  | some g => exact .some (collapsed_normalize g)

/-- A failure with an empty list, below a cause with an empty list of its own. -/
def hollow : Failure :=
  ⟨"panic", "é", ⟨300⟩, none, some ⟨"error", "", ⟨1⟩, none, none, some []⟩,
    some [⟨"codec", "x", ⟨0⟩, some "b", none, some []⟩]⟩

theorem hollow_transported :
    decode (hollow.encode ++ [7]) = .ok hollow.normalize ∧
    decode (hollow.encode.take 20) = .error .truncated ∧
    hollow.encode = hollow.normalize.encode ∧
    hollow.normalize ≠ hollow ∧
    ∃ g, hollow.normalize.node? [.nested 0] = some g ∧ g.suppressed = none ∧ g.message = "x" := by
  have hfits : hollow.fits = true := by decide
  have hback : hollow.encode.drop 20 ≠ [] := by decide +kernel
  obtain ⟨h1, h2, h3, h4, h5⟩ := survives_transport hfits
  refine ⟨h1 [7], h2 _ _ (List.take_append_drop 20 _) hback,
    (h3 _ (fits_normalize _ hfits)).mpr h4.symm, by decide +kernel, ?_⟩
  have h := h5 [.nested 0]
  cases h with
  | some hc => exact ⟨_, rfl, hc.suppressed, hc.message⟩

end Quiescence.Failure
