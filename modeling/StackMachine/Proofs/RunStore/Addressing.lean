import StackMachine.Proofs.Image.Limits
import StackMachine.Proofs.RunStore.Session

/-!
# Images are found by their digest

A store keeps under a digest the encoding of an image that was put and has this digest. The first one stays: whatever
is put later, nothing is replaced.
-/

set_option autoImplicit false

namespace StackMachine.RunStore

variable {s : RunStore} {log : List (Request × Reply)}

/-- Putting the image was answered with the digest. -/
def Stored (log : List (Request × Reply)) (img : Image) (hash : String) : Prop :=
  (.put img, .stored (.ok hash)) ∈ log

theorem lookup_adding (s : RunStore) (img : Image) (hash : String) :
    (s.adding img).images.lookup hash =
      (s.images.lookup hash).or (if hash = img.hash then some img.encode else none) := by
  unfold adding
  split
  case isTrue hstored =>
    by_cases heq : hash = img.hash
    · obtain ⟨encoded, hencoded⟩ := Option.isSome_iff_exists.mp hstored
      rw [heq, hencoded]
      rfl
    · rw [if_neg heq, Option.or_none]
  case isFalse hnew =>
    by_cases heq : hash = img.hash
    · rw [heq, Option.not_isSome_iff_eq_none.mp hnew]
      simp
    · rw [if_neg heq, Option.or_none, List.lookup_cons, beq_false_of_ne heq]

theorem record_images {r : RunRecord} {t : RunStore} (h : s.record r = .ok t) :
    t.closed = s.closed ∧ t.images = s.images := by
  unfold record at h
  split at h
  · cases h
  · cases h
    exact ⟨rfl, rfl⟩

/-- The images of an open store are those that were put, and each of these has its digest taken. -/
structure Addressed (log : List (Request × Reply)) (s : RunStore) : Prop where
  opened : s.closed = false
  kept : ∀ hash encoded, s.images.lookup hash = some encoded →
    ∃ img, Stored log img hash ∧ hash = img.hash ∧ encoded = img.encode
  found : ∀ img hash, Stored log img hash → hash = img.hash ∧ (s.images.lookup hash).isSome

theorem addressed_new : Addressed [] {} :=
  ⟨rfl, by simp, by simp [Stored]⟩

namespace Addressed

theorem unstored (h : Addressed log s) {e : Request × Reply} (he : ∀ img hash, e ≠ (.put img, .stored (.ok hash)))
    {t : RunStore} (hclosed : t.closed = s.closed) (himages : t.images = s.images) : Addressed (log ++ [e]) t := by
  have hsame : ∀ img hash, Stored (log ++ [e]) img hash ↔ Stored log img hash := by
    intro img hash
    simp [Stored, (he img hash).symm]
  refine ⟨hclosed.trans h.opened, ?_, ?_⟩
  · simpa only [hsame, himages] using h.kept
  · simpa only [hsame, himages] using h.found

theorem adding (h : Addressed log s) (img : Image) :
    Addressed (log ++ [(.put img, .stored (.ok img.hash))]) (s.adding img) := by
  refine ⟨(adding_closed s img).trans h.opened, ?_, ?_⟩
  · intro hash encoded hlookup
    rw [lookup_adding, Option.or_eq_some_iff] at hlookup
    obtain hold | ⟨-, hnew⟩ := hlookup
    · obtain ⟨img', hstored, heq⟩ := h.kept hash encoded hold
      exact ⟨img', List.mem_append_left _ hstored, heq⟩
    · obtain ⟨heq, ⟨⟩⟩ := Option.ite_none_right_eq_some.mp hnew
      exact ⟨img, by simp [Stored, heq], heq, rfl⟩
  · intro img' hash hstored
    rw [lookup_adding]
    obtain hold | hnew := List.mem_append.mp hstored
    · obtain ⟨heq, hsome⟩ := h.found img' hash hold
      exact ⟨heq, by simp [hsome]⟩
    · cases List.mem_singleton.mp hnew
      exact ⟨rfl, by simp⟩

theorem step (log : List (Request × Reply)) (s : RunStore) (q : Request) (h : Addressed log s) :
    Addressed (log ++ [(q, (s.answer q).1)]) (s.answer q).2 := by
  cases q with
  | put img =>
    rw [answer_put h.opened]
    exact h.adding img
  | get hash => exact h.unstored (by simp) rfl rfl
  | record r new =>
    rw [answer]
    split
    case h_1 t ht =>
      obtain ⟨hclosed, himages⟩ := record_images ht
      exact h.unstored (by simp) hclosed himages
    case h_2 => exact h.unstored (by simp) rfl rfl
  | runs hash => exact h.unstored (by simp) rfl rfl

theorem after (h : Addressed log s) (qs : List Request) : Addressed (log ++ exchanges s qs) (s.after qs) :=
  Session.invariant step h qs

theorem stored_of_mem (h : Addressed log s) {qs : List Request} {img : Image} (hmem : .put img ∈ qs) :
    Stored (exchanges s qs) img img.hash := by
  induction qs generalizing log s with
  | nil => cases hmem
  | cons q qs ih =>
    rw [exchanges_cons]
    cases hmem with
    | head =>
      rw [answer_put h.opened]
      exact .head _
    | tail _ hmem => exact .tail _ (ih (step log s q h) hmem)

theorem get_of_lookup (h : Addressed log s) {hash : String} {encoded : Bytes}
    (hlookup : s.images.lookup hash = some encoded) : s.get hash = (Image.decode encoded).mapError .image := by
  rw [get, h.opened, hlookup]
  rfl

/-- An image that was put is returned, if no other encoding has its digest. -/
theorem get_of_stored (h : Addressed log s) {hash : String} {img : Image} (hstored : Stored log img hash)
    (hlimits : img.WithinLimits)
    (hdigest : ∀ other hash, Stored log other hash → other.hash = img.hash → other.encode = img.encode) :
    s.get hash = .ok img := by
  obtain ⟨heq, hsome⟩ := h.found img hash hstored
  obtain ⟨encoded, hlookup⟩ := Option.isSome_iff_exists.mp hsome
  obtain ⟨put, hput, hput', rfl⟩ := h.kept hash encoded hlookup
  have hencoded : put.encode = img.encode := hdigest put hash hput (hput'.symm.trans heq)
  rw [h.get_of_lookup hlookup, hencoded, Image.decode_encode hlimits]
  rfl

end Addressed

theorem addressed_after (history : List Request) : Addressed (exchanges {} history) (after {} history) := by
  simpa using addressed_new.after history

theorem mem_of_stored {history : List Request} {img : Image} {hash : String}
    (h : Stored (exchanges s history) img hash) : .put img ∈ history := by
  have hmem := List.mem_map_of_mem (f := Prod.fst) h
  rwa [exchanges, Session.map_fst_exchanges] at hmem

end StackMachine.RunStore
