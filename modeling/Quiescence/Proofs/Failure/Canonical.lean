/-
# Whatever bytes arrive

Bytes that hold a failure need not be those that it is sent in: numbers may be
padded, lists of nested failures may be there without a failure in them, and
anything may follow.

* `covers_read`: of all bytes in which a failure can be read, those that it is
  written in are the fewest.
* `decode_canonical`: what is read is in its canonical form, and is read again
  from its own bytes, which are no more than those that were read.
* `whatever_arrives`: and so a root takes whatever bytes arrive as one failure
  that has ended, those that hold none as well.
-/
import Quiescence.Network.Pairwise
import Quiescence.Proofs.Consumption
import Quiescence.Proofs.Failure.Transport
import Quiescence.Proofs.Tally
import Quiescence.Proofs.World.Lookup

namespace Quiescence

namespace Failure

open Wire

/-! ### The fewest bytes -/

theorem fitsAll_iff (fs : List Failure) : fitsAll fs = true ↔ ∀ f ∈ fs, f.fits = true := by
  induction fs with
  | nil => simp [fitsAll]
  | cons f fs ih => rw [fitsAll, Bool.and_eq_true, ih, List.forall_mem_cons]

/-- A failure fits if its texts do, and the failures it has are no more than can be told and fit. -/
theorem fits_iff (f : Failure) : f.fits = true ↔ f.kind.utf8ByteSize < 2 ^ 64 ∧
    f.message.utf8ByteSize < 2 ^ 64 ∧ (∀ t ∈ f.backtrace, t.utf8ByteSize < 2 ^ 64) ∧
    (∀ g ∈ f.cause, g.fits = true) ∧
    ∀ fs ∈ f.suppressed, fs.length < 2 ^ 64 ∧ ∀ g ∈ fs, g.fits = true := by
  obtain ⟨k, m, p, b, c, s⟩ := f
  have hb : b.all fitsText = true ↔ ∀ t ∈ b, t.utf8ByteSize < 2 ^ 64 := by
    cases b <;> simp [fitsText]
  have hc : fitsCause c = true ↔ ∀ g ∈ c, g.fits = true := by
    cases c <;> simp [fitsCause]
  have hs : fitsNested s = true ↔
      ∀ fs ∈ s, fs.length < 2 ^ 64 ∧ ∀ g ∈ fs, g.fits = true := by
    cases s <;> simp [fitsNested, fitsAll_iff]
  simp only [fits, Bool.and_eq_true, hb, hc, hs, fitsText, decide_eq_true_eq, and_assoc]

theorem writeCause_eq (c : Option Failure) : writeCause c = writeOption write c := by
  cases c <;> rfl

theorem writeNested_eq (s : Option (List Failure)) : writeNested s =
    writeOption (fun fs => writeNat fs.length ++ fs.flatMap write) s := by
  cases s with
  | none => rfl
  | some fs => rw [writeNested, writeAll_eq, writeOption]

/-- At any depth, a failure that is read takes no fewer bytes than it is written in. -/
theorem covers_read (depth : ℕ) : Covers (read depth) write (·.fits = true) := by
  induction depth with
  | zero =>
    intro bs f rest h
    cases h
  | succ depth ih =>
    intro bs f rest h
    obtain ⟨kind, left₁, h₁, h⟩ := bind_eq_ok h
    obtain ⟨message, left₂, h₂, h⟩ := bind_eq_ok h
    obtain ⟨place, left₃, h₃, h⟩ := bind_eq_ok h
    obtain ⟨backtrace, left₄, h₄, h⟩ := bind_eq_ok h
    obtain ⟨cause, left₅, h₅, h⟩ := bind_eq_ok h
    obtain ⟨suppressed, left₆, h₆, h⟩ := bind_eq_ok h
    obtain ⟨rfl, rfl⟩ := pure_eq_ok h
    obtain ⟨hkind, hlen₁⟩ := covers_text _ _ _ h₁
    obtain ⟨hmessage, hlen₂⟩ := covers_text _ _ _ h₂
    obtain ⟨-, hlen₃⟩ := covers_place _ _ _ h₃
    obtain ⟨hbacktrace, hlen₄⟩ := covers_option covers_text _ _ _ h₄
    obtain ⟨hcause, hlen₅⟩ := covers_option ih _ _ _ h₅
    obtain ⟨hsuppressed, hlen₆⟩ := covers_option (covers_list ih) _ _ _ h₆
    refine ⟨(fits_iff _).mpr ⟨hkind, hmessage, hbacktrace, hcause, hsuppressed⟩, ?_⟩
    simp only [write, writeCause_eq, writeNested_eq, List.length_append]
    omega

mutual

/-- The canonical form leaves out what an empty list takes, and nothing else. -/
theorem length_write_normalize : ∀ f : Failure, f.normalize.write.length ≤ f.write.length
  | ⟨k, m, p, b, c, s⟩ => by
    have hc := length_writeCause_normalizeCause c
    have hs := length_writeNested_normalizeNested s
    simp only [normalize, write, List.length_append]
    omega

theorem length_writeCause_normalizeCause :
    ∀ c : Option Failure, (writeCause (normalizeCause c)).length ≤ (writeCause c).length
  | none => Nat.le_refl _
  | some f => by
    have := length_write_normalize f
    simp only [normalizeCause, writeCause, List.length_cons]
    omega

theorem length_writeNested_normalizeNested :
    ∀ s : Option (List Failure), (writeNested (normalizeNested s)).length ≤ (writeNested s).length
  | none => Nat.le_refl _
  | some [] => by simp [normalizeNested, writeNested]
  | some (f :: fs) => by
    have hf := length_write_normalize f
    have hfs := length_writeAll_normalizeAll fs
    simp only [normalizeNested, writeNested, writeAll, List.length_cons, List.length_append,
      length_normalizeAll]
    omega

theorem length_writeAll_normalizeAll :
    ∀ fs : List Failure, (writeAll (normalizeAll fs)).length ≤ (writeAll fs).length
  | [] => Nat.le_refl _
  | f :: fs => by
    have hf := length_write_normalize f
    have hfs := length_writeAll_normalizeAll fs
    simp only [normalizeAll, writeAll, List.length_append]
    omega

end

/-! ### The canonical form -/

/-- No node of the failure has an empty list of nested failures. -/
def Canonical (f : Failure) : Prop := ∀ path g, f.node? path = some g → g.suppressed ≠ some []

theorem canonical_normalize (f : Failure) : Canonical f.normalize := fun path g hg => by
  rw [node?_normalize] at hg
  obtain ⟨g, -, rfl⟩ := Option.map_eq_some_iff.mp hg
  rw [suppressed_normalize]
  split_ifs with h
  · exact nofun
  · rw [Ne, Option.map_eq_some_iff]
    rintro ⟨fs, hs, hnil⟩
    exact h (by rw [nested, hs, List.map_eq_nil_iff.mp hnil, Option.getD_some])

theorem decode_eq_ok {bs : Bytes} {f : Failure} (h : decode bs = .ok f) :
    ∃ g rest, read (bs.length + 1) bs = .ok (g, rest) ∧ f = g.normalize := by
  unfold decode Reader.decode at h
  cases hr : read (bs.length + 1) bs with
  | error e =>
    rw [hr] at h
    cases h
  | ok out =>
    rw [hr] at h
    exact ⟨out.1, out.2, rfl, (Except.ok.inj h).symm⟩

/-- What is read from any bytes is in its canonical form, and is sent in no more bytes, from which it
is read again. -/
theorem decode_canonical {bs : Bytes} {f : Failure} (h : decode bs = .ok f) :
    Canonical f ∧ decode f.encode = .ok f ∧ f.encode.length ≤ bs.length := by
  obtain ⟨g, rest, hr, rfl⟩ := decode_eq_ok h
  obtain ⟨hfits, hlen⟩ := covers_read _ _ _ _ hr
  have hsame : g.normalize.encode = g.encode := by rw [encode, normalize_normalize, encode]
  have hback := decode_encode hfits []
  rw [List.append_nil] at hback
  refine ⟨canonical_normalize g, by rw [hsame, hback], ?_⟩
  have hshort := length_write_normalize g
  rw [hsame, encode]
  omega

/-! ### At the root -/

/-- **Whatever bytes arrive.** A failure that is read is in its canonical form at every node, is read
again from the bytes that it is sent in, and these are no more than those that it was read from. And a
root that its home place binds keeps for any bytes, after the failures it has, one that they hold or
else one that says why they hold none; the tally of the home place goes down by one, and no other
changes, at this or any other instance. -/
theorem whatever_arrives (bs : Bytes) :
    (∀ f, decode bs = .ok f →
      Canonical f ∧ decode f.encode = .ok f ∧ f.encode.length ≤ bs.length) ∧
    ∀ {ν : Type → Type} {β : Type} [Network ν] (w : World ν β) (home : PlaceId) (id : GlobalId)
      (r : Serial) (i : Instance), w.bound? home id = some (.scope r) → w.instance? r = some i →
      i.place = home → i.role = .root →
      ∃ f j, (∀ g, decode bs = .ok g → f = g) ∧
        (∀ e, decode bs = .error e →
          f = ⟨"codec", "failure codec error: " ++ e.message, home, none, none, none⟩) ∧
        (∀ s, (w.deliverFailure home id bs).instance? s = if s = r then some j else w.instance? s) ∧
        j.exceptions = i.exceptions ++ [f] ∧
        j.counters.tally home = i.counters.tally home + Pi.single home.index (-1) ∧
        (i.counters.Exact → j.counters.Exact) := by
  refine ⟨fun f hf => decode_canonical hf, ?_⟩
  intro ν β _ w home id r i hb hi hp hrole
  subst hp
  have hl : w.lookup i.place id = .ok r := by simp [World.lookup, hb]
  refine ⟨ofDecoded (decode bs) i.place, _, fun g hg => ?_, fun e he => ?_,
    World.deliverFailure_root hi (Instance.remoteId?_of_root hrole) hl bs, rfl, Counters.tally_tellAtHome .., fun hx =>
      (Counters.tellAtHome_spec hx ..).1⟩
  · rw [hg, ofDecoded]
  · rw [he]
    rfl

/-- Two places. The scope at place 0 is known elsewhere by an identity, and its body has not ended. -/
def listening : World Pairwise Unit :=
  (((World.start (Pairwise.empty 2) 2 .debug 0).openScope ⟨0⟩ .debug).2.prepareTransfer 0).2

/-- A failure with a padded length, an empty list, and a byte after it. -/
def padded : Bytes := [0x81, 0, 97, 0, 5, 0, 0, 1, 0, 9]

/-- Bytes that hold no failure end a task as those that hold one do. -/
theorem whatever_arrives_garbled :
    decode padded = .ok (.simple "a" "" ⟨5⟩) ∧
    (Failure.simple "a" "" ⟨5⟩).encode.length ≤ padded.length ∧
    decode [0xff, 0xff, 0xff] = .error .truncated ∧
    ∃ j, (listening.deliverFailure ⟨0⟩ ⟨⟨0⟩, 0⟩ [0xff, 0xff, 0xff]).instance? 0 = some j ∧
      j.exceptions = [⟨"codec", "failure codec error: Hit the end of buffer, expected more data",
        ⟨0⟩, none, none, none⟩] ∧ j.counters.tally ⟨0⟩ 0 = 0 := by
  have hpadded : decode padded = .ok (.simple "a" "" ⟨5⟩) := by decide +kernel
  have hgarbled : decode [0xff, 0xff, 0xff] = .error .truncated := by decide +kernel
  refine ⟨hpadded, ((whatever_arrives padded).1 _ hpadded).2.2, hgarbled, ?_⟩
  obtain ⟨f, j, -, hf, hj, hkept, htally, -⟩ := (whatever_arrives [0xff, 0xff, 0xff]).2 listening
    ⟨0⟩ ⟨⟨0⟩, 0⟩ 0 ⟨⟨0⟩, .debug, some ⟨⟨0⟩, 0⟩, ⟨1, none⟩, [], true, 0⟩ (by decide) (by decide)
    rfl (by decide)
  refine ⟨j, (hj 0).trans (if_pos rfl), ?_, ?_⟩
  · rw [hkept, hf _ hgarbled]
    rfl
  · rw [htally]
    rfl

end Failure

end Quiescence
