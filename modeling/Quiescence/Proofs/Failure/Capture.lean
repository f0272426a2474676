/-
# The capture of an error keeps every failure

The error that a body ends with is a chain of links, each with a text, and is
captured as a chain of causes. An aggregate ends the chain: what lies beneath it
are its own failures, and these are kept as nested ones.

* `ofChain_plain`, `ofChain_aggregate`: what a chain of links is captured as.
* `held`: the failures in all lists of nested failures, at any depth.
* `Cascade`: how a failure comes about that passes through scopes. A scope
  collects failures, the body around it raises them again in contexts of its own
  and is captured at its place, and the failure may cross to another.
* `held_outcome`: the failure holds all that the scopes on its way have collected,
  once each.
* `capture_complete`: all of it together.

A length beyond 64 bits, which no place can hold, does not cross: hence `fits`.
-/
import Quiescence.Proofs.Failure.Transport
import Quiescence.Raised

namespace Quiescence

namespace Failure

open Raised (Link)

/-! ### Chains of causes -/

/-- The failure apart from its causes. -/
def alone (f : Failure) : Failure := { f with cause := none }

/-- The failure in some contexts, outermost first, all of them at one place. -/
def within (place : PlaceId) (texts : List String) (f : Failure) : Failure :=
  texts.foldr (fun text inner => { Failure.simple errorKind text place with cause := some inner }) f

/-- The failure of an aggregate. A list without a failure is never started. -/
def gathered (text : String) (place : PlaceId) (fs : List Failure) : Failure :=
  { Failure.simple multipleKind text place with suppressed := if fs = [] then none else some fs }

variable {place : PlaceId} {above below : List Link} {text : String} {fs : List Failure}

theorem chain_within (texts : List String) (f : Failure) : (within place texts f).chain.map alone =
    texts.map (.simple errorKind · place) ++ f.chain.map alone := by
  induction texts with
  | nil => rfl
  | cons text texts ih => exact congrArg (Failure.simple errorKind text place :: ·) ih

theorem foldl_suppress (f : Failure) (fs : List Failure) : fs.foldl suppress f =
    { f with suppressed := if fs = [] then f.suppressed else some (f.nested ++ fs) } := by
  induction fs generalizing f with
  | nil =>
    rw [List.foldl_nil, if_pos rfl]
    cases f
    rfl
  | cons g fs ih =>
    rw [List.foldl_cons, ih]
    by_cases hfs : fs = [] <;> simp [suppress, nested, hfs]

/-- A chain without an aggregate is captured link by link. -/
theorem ofChain_plain (h : ∀ l ∈ above, l.aggregate = none) (last : Link)
    (hlast : last.aggregate = none) : ofChain place (above ++ [last]) =
      some (within place (above.map Link.text) (.simple errorKind last.text place)) := by
  induction above with
  | nil => simp [ofChain, hlast, within, Failure.simple]
  | cons l above ih =>
    obtain ⟨hl, h⟩ := List.forall_mem_cons.mp h
    simp only [List.cons_append, ofChain, hl, ih h]
    rfl

/-- Up to the first aggregate, so is any chain, and nothing is captured beneath that. -/
theorem ofChain_aggregate (h : ∀ l ∈ above, l.aggregate = none) :
    ofChain place (above ++ ⟨text, some fs⟩ :: below) =
      some (within place (above.map Link.text) (gathered text place fs)) := by
  induction above with
  | nil => simp [ofChain, foldl_suppress, within, gathered, Failure.simple, nested]
  | cons l above ih =>
    obtain ⟨hl, h⟩ := List.forall_mem_cons.mp h
    simp only [List.cons_append, ofChain, hl, ih h]
    rfl

/-! ### Errors -/

theorem ofAggregate_eq (fs : List Failure) : ∃ below, Link.ofAggregate fs =
    ⟨aggregateText fs, some fs⟩ :: below := ⟨_, rfl⟩

/-- An error has a link at least. -/
theorem ofChain_chain (e : Raised) (place : PlaceId) :
    ofChain place e.chain = some (ofRaised e place) := by
  have hsome : ∀ links : List Link, links ≠ [] → (ofChain place links).isSome := by
    intro links hne
    cases links with
    | nil => exact absurd rfl hne
    | cons l links =>
      rw [ofChain]
      split <;> rfl
  have hne : e.origin.chain ≠ [] := by
    cases e.origin with
    | failure f => cases f; simp [Raised.Origin.chain, chain]
    | scope e => cases e <;> simp [Raised.Origin.chain, ScopeError.failures?, ScopeError.sources,
        Link.ofAggregate, aggregateSources, TransferError.sources]
    | _ => simp [Raised.Origin.chain, Link.ofAggregate, aggregateSources, TransferError.sources]
  have hchain : e.chain ≠ [] := fun h => hne (List.append_eq_nil_iff.mp h).2
  obtain ⟨f, hf⟩ := Option.isSome_iff_exists.mp (hsome e.chain hchain)
  rw [ofRaised, hf, Option.getD_some]

/-- A link of an error that is an aggregate has its text. -/
theorem text_of_aggregate (e : Raised) {l : Link} (hl : l ∈ e.chain) (h : l.aggregate = some fs) :
    l.text = aggregateText fs := by
  have hplain : ∀ texts : List String, l ∉ texts.map Link.plain := fun texts hm => by
    obtain ⟨_, -, rfl⟩ := List.mem_map.mp hm
    cases h
  have hgathered : ∀ gs, l ∈ Link.ofAggregate gs → l.text = aggregateText fs := fun gs hm => by
    rcases List.mem_cons.mp hm with rfl | hm
    · rw [Option.some.inj h]
    · exact absurd hm (hplain _)
  rcases List.mem_append.mp hl with hl | hl
  · exact absurd hl (hplain _)
  · cases ho : e.origin with
    | aggregate gs => exact hgathered gs (by rwa [ho] at hl)
    | scope e =>
      rw [ho, Raised.Origin.chain] at hl
      split at hl
      · exact hgathered _ hl
      · exact absurd hl (hplain _)
    | message text => exact absurd (by rwa [ho] at hl) (hplain [text])
    | failure f =>
      rw [ho] at hl
      obtain ⟨_, -, rfl⟩ := List.mem_map.mp hl
      cases h
    | transfer e => exact absurd (by rwa [ho] at hl) (hplain e.sources)
    | place e => exact absurd (by rwa [ho] at hl) (hplain [e.message])

/-! ### The failures held -/

mutual

/-- The failures in the lists of nested failures of this one, of its causes, and of all these. -/
def held : Failure → List Failure
  | ⟨_, _, _, _, c, s⟩ => heldByNested s ++ heldByCause c

def heldByCause : Option Failure → List Failure
  | none => []
  | some f => held f

def heldByNested : Option (List Failure) → List Failure
  | none => []
  | some fs => heldByAll fs

def heldByAll : List Failure → List Failure
  | [] => []
  | f :: fs => f :: (held f ++ heldByAll fs)

end

mutual

theorem held_normalize : ∀ f : Failure, f.normalize.held = f.held.map normalize
  | ⟨k, m, p, b, c, s⟩ => by
    simp only [normalize, held, List.map_append, heldByCause_normalizeCause c,
      heldByNested_normalizeNested s]

theorem heldByCause_normalizeCause :
    ∀ c : Option Failure, heldByCause (normalizeCause c) = (heldByCause c).map normalize
  | none => rfl
  | some f => held_normalize f

theorem heldByNested_normalizeNested :
    ∀ s : Option (List Failure), heldByNested (normalizeNested s) = (heldByNested s).map normalize
  | none => rfl
  | some [] => rfl
  | some (f :: fs) => by
    simp only [normalizeNested, heldByNested, heldByAll, List.map_cons, List.map_append,
      held_normalize f, heldByAll_normalizeAll fs]

theorem heldByAll_normalizeAll :
    ∀ fs : List Failure, heldByAll (normalizeAll fs) = (heldByAll fs).map normalize
  | [] => rfl
  | f :: fs => by
    simp only [normalizeAll, heldByAll, List.map_cons, List.map_append, held_normalize f,
      heldByAll_normalizeAll fs]

end

theorem held_within (texts : List String) (f : Failure) : (within place texts f).held = f.held := by
  induction texts with
  | nil => rfl
  | cons text texts ih => exact ih

theorem held_gathered (text : String) (place : PlaceId) (fs : List Failure) :
    (gathered text place fs).held = heldByAll fs := by
  cases fs with
  | nil => rfl
  | cons f fs => exact List.append_nil _

end Failure

/-! ### Failures that pass through scopes -/

/-- How a failure comes about that a scope collects. -/
inductive Cascade where
  /-- A body fails by itself. -/
  | failed (failure : Failure)
  /-- A scope has collected failures, and its error, or the aggregate alone, is raised again in
  contexts, innermost first, by a body that runs at a place. -/
  | reraised (parts : List Cascade) (bare : Bool) (contexts : List String) (place : PlaceId)
  /-- A failure is carried to another place. -/
  | carried (cascade : Cascade) (place : PlaceId)

namespace Cascade

open Failure

/-- The error that raises the failures of a scope again. -/
def error (fs : List Failure) (bare : Bool) (contexts : List String) : Raised :=
  ⟨if bare then .aggregate fs else .scope (.multiple fs), contexts⟩

mutual

/-- The failure that comes about. -/
def outcome : Cascade → Failure
  | failed f => f
  | reraised parts bare contexts place => .ofRaised (error (outcomes parts) bare contexts) place
  | carried c place => .ofDecoded (decode (outcome c).encode) place

/-- The failures that a scope has collected. -/
def outcomes : List Cascade → List Failure
  | [] => []
  | c :: cs => outcome c :: outcomes cs

end

mutual

/-- The failures that the scopes on the way have collected, and what they held by themselves. -/
def collected : Cascade → List Failure
  | failed f => f.held
  | reraised parts _ _ _ => collectedByAll parts
  | carried c _ => collected c

def collectedByAll : List Cascade → List Failure
  | [] => []
  | c :: cs => outcome c :: (collected c ++ collectedByAll cs)

end

mutual

/-- Every length of a failure that is carried fits its field. -/
def fits : Cascade → Bool
  | failed _ => true
  | reraised parts _ _ _ => fitsAll parts
  | carried c _ => (outcome c).fits && fits c

def fitsAll : List Cascade → Bool
  | [] => true
  | c :: cs => fits c && fitsAll cs

end

/-- What is captured of failures that are raised again. -/
theorem ofRaised_error (fs : List Failure) (bare : Bool) (contexts : List String) (place : PlaceId) :
    ofRaised (error fs bare contexts) place =
      within place contexts.reverse (gathered (aggregateText fs) place fs) := by
  obtain ⟨below, hbelow⟩ := ofAggregate_eq fs
  have hchain : (error fs bare contexts).chain =
      contexts.reverse.map .plain ++ ⟨aggregateText fs, some fs⟩ :: below := by
    cases bare <;> exact congrArg (contexts.reverse.map _ ++ ·) hbelow
  have hplain : ∀ l ∈ contexts.reverse.map Raised.Link.plain, l.aggregate = none := fun l hl => by
    obtain ⟨_, -, rfl⟩ := List.mem_map.mp hl
    rfl
  have htexts : (contexts.reverse.map Raised.Link.plain).map Raised.Link.text = contexts.reverse := by
    rw [List.map_map]
    exact List.map_id _
  have h := ofChain_chain (error fs bare contexts) place
  rw [hchain, ofChain_aggregate hplain, htexts] at h
  exact (Option.some.inj h).symm

mutual

/-- **Nothing that was collected is lost, and nothing is held twice.** -/
theorem held_outcome : ∀ c : Cascade, c.fits = true →
    c.outcome.held.map normalize = c.collected.map normalize
  | failed f, _ => rfl
  | reraised parts bare contexts place, h => by
    rw [outcome, ofRaised_error, held_within, held_gathered, collected]
    exact heldByAll_outcomes parts h
  | carried c place, h => by
    rw [fits, Bool.and_eq_true] at h
    have harrives := decode_encode h.1 []
    rw [List.append_nil] at harrives
    rw [outcome, harrives, ofDecoded, held_normalize, List.map_map, collected,
      ← held_outcome c h.2]
    exact List.map_congr_left fun f _ => normalize_normalize f

theorem heldByAll_outcomes : ∀ cs : List Cascade, fitsAll cs = true →
    (heldByAll (outcomes cs)).map normalize = (collectedByAll cs).map normalize
  | [], _ => rfl
  | c :: cs, h => by
    rw [fitsAll, Bool.and_eq_true] at h
    simp only [outcomes, heldByAll, collectedByAll, List.map_cons, List.map_append,
      held_outcome c h.1, heldByAll_outcomes cs h.2]

end

end Cascade

namespace Failure

open Raised (Link)

/-- **Capture keeps the whole chain and every nested failure.** A chain of links none of which is an
aggregate is captured as as many causes, each of kind `error`, with the text of its link, and nothing
nested. Up to the first aggregate so is any other chain; that one is captured as the last cause, of
kind `multiple`, with its text and its failures, and nothing of what lies beneath it. An error is
captured as its chain is, where an aggregate has the text of its failures. A failure that has passed
through any scopes, in any contexts and from place to place, holds in its canonical form just what
they have collected, each once and in order. -/
theorem capture_complete :
    (∀ place links, links ≠ [] → (∀ l ∈ links, l.aggregate = none) →
      ∃ f, ofChain place links = some f ∧
        f.chain.map alone = links.map fun l => ⟨"error", l.text, place, none, none, none⟩) ∧
    (∀ place above text fs below, (∀ l ∈ above, l.aggregate = none) →
      ∃ f, ofChain place (above ++ ⟨text, some fs⟩ :: below) = some f ∧
        f.chain.map alone = above.map (fun l => ⟨"error", l.text, place, none, none, none⟩) ++
          [⟨"multiple", text, place, none, none, if fs = [] then none else some fs⟩]) ∧
    (∀ (e : Raised) place, ofChain place e.chain = some (ofRaised e place) ∧
      ∀ l ∈ e.chain, ∀ fs, l.aggregate = some fs → l.text = aggregateText fs) ∧
    ∀ c : Cascade, c.fits = true → c.outcome.held.map normalize = c.collected.map normalize := by
  refine ⟨fun place links hne h => ?_, fun place above text fs below h => ?_, fun e place =>
    ⟨ofChain_chain e place, fun l hl fs hfs => text_of_aggregate e hl hfs⟩, Cascade.held_outcome⟩
  · obtain ⟨above, last, rfl⟩ := List.eq_nil_or_concat' links |>.resolve_left hne
    obtain ⟨habove, hlast⟩ := List.forall_mem_append.mp h
    refine ⟨_, ofChain_plain habove last (hlast last (List.mem_singleton_self last)), ?_⟩
    rw [chain_within, List.map_map, List.map_append]
    rfl
  · refine ⟨_, ofChain_aggregate h, ?_⟩
    rw [chain_within, List.map_map]
    rfl

/-- Two bodies fail under a scope at place 1. Its error is raised again in a context, and the failure
is carried to place 0, where a scope collects another one; of both, place 2 raises the aggregate. -/
def twoScopes : Cascade :=
  .reraised
    [.carried
        (.reraised [.failed hollow, .failed (.simple "panic" "b" ⟨3⟩)] false ["inner"] ⟨1⟩) ⟨0⟩,
      .failed (.simple "error" "c" ⟨0⟩)]
    true ["outer", "last"] ⟨2⟩

/-- The error of the inner scope holds its two failures still, one of them with what it held itself;
and what lies beneath an aggregate is not captured. -/
theorem capture_relayed :
    twoScopes.fits = true ∧
    twoScopes.outcome.held.map normalize = twoScopes.collected.map normalize ∧
    twoScopes.collected.map (·.message) = ["inner", "é", "x", "b", "c"] ∧
    twoScopes.outcome.chain.map (·.message) =
      ["last", "outer", "2 tasks failed, first: error at place(1): inner"] ∧
    ∃ f, ofChain ⟨2⟩ (.plain "outer" :: Link.ofAggregate [hollow]) = some f ∧
      f.chain.map alone = [.simple "error" "outer" ⟨2⟩,
        ⟨"multiple", aggregateText [hollow], ⟨2⟩, none, none, some [hollow]⟩] := by
  have hfits : twoScopes.fits = true := by decide +kernel
  obtain ⟨-, haggregate, -, hheld⟩ := capture_complete
  exact ⟨hfits, hheld twoScopes hfits, by decide +kernel, by decide +kernel,
    haggregate ⟨2⟩ [.plain "outer"] (aggregateText [hollow]) [hollow] _ (by simp [Link.plain])⟩

end Failure

end Quiescence
