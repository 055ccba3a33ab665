import ConstraintCompiler.Proofs.Locality
import ConstraintCompiler.Proofs.Machine
import Mathlib.Data.Nat.Bitwise

/-!
Contract: what a machine prepares for a search is within bounds.

Owns:
- `Domain.Fits`, that the ends of an integer range are 64-bit integers;
- `choices_eq_map_pick`, that choices are counted by the bits of their positions;
- `Machine.run_candidateLists?`, that domains that fit are listed as in an unbounded search;
- `Machine.watchLists?_eq`, that postings of known variables are given to their last ones.
-/

namespace ConstraintCompiler

/-- The ends of an integer range are 64-bit integers. -/
def Domain.Fits : Domain → Prop
  | .bool => True
  | .int least greatest => Representable least ∧ Representable greatest
  | .set _ _ => True

namespace Search

/-! ### Choices by position -/

/-- The elements whose binary digit in the mask is one, the first element having the lowest. -/
def pick : List Int → Nat → List Int
  | [], _ => []
  | element :: rest, mask =>
      if mask % 2 = 0 then pick rest (mask / 2) else element :: pick rest (mask / 2)

theorem range_two_mul (count : Nat) :
    List.range (2 * count) = (List.range count).flatMap fun mask => [2 * mask, 2 * mask + 1] := by
  induction count with
  | zero => rfl
  | succ count inductionHypothesis =>
      rw [List.range_succ, List.flatMap_append, ← inductionHypothesis, Nat.mul_succ,
        List.range_succ, List.range_succ]
      simp

/-- Choices are listed in the order of the masks that pick them. -/
theorem choices_eq_map_pick (elements : List Int) :
    choices elements = (List.range (2 ^ elements.length)).map (pick elements) := by
  induction elements with
  | nil => rfl
  | cons element rest inductionHypothesis =>
      have digits : ∀ mask, pick (element :: rest) (2 * mask) = pick rest mask ∧
          pick (element :: rest) (2 * mask + 1) = element :: pick rest mask := by
        intro mask
        have half : (2 * mask + 1) / 2 = mask := by omega
        have odd : (2 * mask + 1) % 2 = 1 := by omega
        simp [pick, half, odd]
      rw [choices, inductionHypothesis, List.length_cons, Nat.pow_succ', range_two_mul,
        List.map_flatMap, List.flatMap_map]
      apply List.flatMap_congr
      intro mask _
      simp [digits]

namespace Machine

/-! ### Numbers -/

theorem bind_of_some {α β : Type} {first : Option α} {value : α} (found : first = some value)
    (next : α → Option β) : first >>= next = next value := by
  rw [found]
  rfl

theorem signed?_of_bounds {bits : Nat} {number : Int} (least : -2 ^ (bits - 1) ≤ number)
    (greatest : number < 2 ^ (bits - 1)) : signed? bits number = some number :=
  if_pos ⟨least, greatest⟩

theorem unsigned?_of_lt {bits number : Nat} (small : number < 2 ^ bits) :
    unsigned? bits number = some number := by
  have bounds : (0 : Int) ≤ number ∧ (number : Int) < 2 ^ bits := by
    exact ⟨Int.natCast_nonneg number, by exact_mod_cast small⟩
  rw [unsigned?, if_pos bounds, Int.toNat_natCast]

theorem shiftOne?_of_lt {amount : Nat} (small : amount < wordBits) :
    shiftOne? amount = some (2 ^ amount) := by
  rw [shiftOne?, if_pos small, Nat.one_shiftLeft]

/-- The number of integers between two 64-bit integers is formed without overflow, also where the
range is crossed. -/
theorem rangeSize?_eq {least greatest : Int} (leastFits : Representable least)
    (greatestFits : Representable greatest) :
    rangeSize? least greatest = some (greatest + 1 - least).toNat := by
  unfold Representable at leastFits greatestFits
  rw [rangeSize?]
  split
  · obtain ⟨size, whole⟩ := Int.eq_ofNat_of_zero_le (show 0 ≤ greatest - least + 1 by omega)
    have width : (2 : Int) ^ (2 * wordBits - 1) = 170141183460469231731687303715884105728 := by
      simp [wordBits]
    have span : signed? (2 * wordBits) (greatest - least) = some (greatest - least) := by
      apply signed?_of_bounds <;> omega
    have count : signed? (2 * wordBits) size = some (size : Int) := by
      apply signed?_of_bounds <;> omega
    have small : size < 2 ^ (2 * wordBits) := by
      simp [wordBits]
      omega
    have listed : (greatest + 1 - least).toNat = size := by omega
    rw [bind_of_some span, whole, bind_of_some count, unsigned?_of_lt small, listed]
  · have empty : (greatest + 1 - least).toNat = 0 := by omega
    rw [empty]

/-! ### Candidates -/

theorem and_two_pow_eq_zero_iff (mask bit : Nat) :
    mask &&& 2 ^ bit = 0 ↔ (mask >>> bit) % 2 = 0 := by
  have place : 2 ^ bit ≠ 0 := Nat.two_pow_pos bit |>.ne'
  rw [Nat.and_two_pow, Nat.toNat_testBit, Nat.shiftRight_eq_div_pow, Nat.mul_eq_zero,
    or_iff_left place]

/-- Picking by mask stays within a word that has a bit for every element. -/
theorem picked?_eq (mask : Nat) {elements : List Int} {bit : Nat}
    (fits : bit + elements.length ≤ wordBits) :
    picked? mask bit elements = some (pick elements (mask >>> bit)) := by
  induction elements generalizing bit with
  | nil => rfl
  | cons element rest inductionHypothesis =>
      rw [List.length_cons] at fits
      have place : shiftOne? bit = some (2 ^ bit) := shiftOne?_of_lt (by omega)
      have picked : picked? mask (bit + 1) rest = some (pick rest (mask >>> (bit + 1))) :=
        inductionHypothesis (by omega)
      rw [picked?, bind_of_some place, bind_of_some picked, Nat.shiftRight_succ]
      simp only [and_two_pow_eq_zero_iff, pick]
      split <;> rfl

theorem choices?_eq {elements : List Int} (fits : elements.length ≤ wordBits) :
    choices? (2 ^ elements.length) elements = some (choices elements) := by
  have each : ∀ mask ∈ List.range (2 ^ elements.length),
      picked? mask 0 elements = pure (pick elements mask) := by
    intro mask _
    rw [picked?_eq mask (by omega)]
    rfl
  rw [choices?, mapM_congr each, List.mapM_pure, choices_eq_map_pick]
  rfl

theorem run_bind_of_some {ε α β : Type} (value : α) (next : α → ExceptT ε Option β) :
    ((liftM (some value) : ExceptT ε Option α) >>= next).run = (next value).run := rfl

/-- A domain that fits is listed, or found oversized, without leaving any bounds. -/
theorem run_candidates? (maxSize id : Nat) {domain : Domain} (fits : domain.Fits) :
    (candidates? maxSize id domain).run = some (candidates maxSize id domain) := by
  cases domain with
  | bool => rfl
  | int least greatest =>
      rw [candidates?, rangeSize?_eq fits.1 fits.2, candidates]
      show (if maxSize < (greatest + 1 - least).toNat then throw _ else pure _ :
        ExceptT Oversize Option (List Value)) = some (if _ then _ else _)
      split <;> rfl
  | set required possible =>
      rw [candidates?, candidates]
      split
      · dsimp only
        generalize (possible.difference required).elements = free
        by_cases many : wordBits - 1 ≤ free.length
        · have limit : freeElementLimit ≤ free.length := many
          simp only [if_pos many, limit, decide_true, Bool.true_or, if_true]
          rfl
        · have limit : ¬freeElementLimit ≤ free.length := many
          have short : free.length < wordBits := by
            unfold wordBits at many ⊢
            omega
          rw [if_neg many, shiftOne?_of_lt short, run_bind_of_some, choices?_eq short.le]
          by_cases oversized : maxSize < 2 ^ free.length
          · simp only [Nat.pow_eq, oversized, decide_true, Bool.or_true, if_true]
            rfl
          · simp only [Nat.pow_eq, limit, oversized, decide_false, Bool.or_false,
              Bool.false_eq_true, if_false]
            rfl
      · rfl

theorem run_mapM_of_some {ε α β : Type} {first : α → ExceptT ε Option β} {second : α → Except ε β}
    {items : List α} (same : ∀ item ∈ items, (first item).run = some (second item)) :
    (items.mapM first).run = some (items.mapM second) := by
  induction items with
  | nil => rfl
  | cons item rest inductionHypothesis =>
      have head := same item (List.mem_cons_self ..)
      have tail := inductionHypothesis fun other member =>
        same other (List.mem_cons_of_mem _ member)
      rw [List.mapM_cons, List.mapM_cons, ExceptT.run_bind, head]
      cases second item with
      | error fault => rfl
      | ok value =>
          show ((rest.mapM first) >>= fun values => pure (value :: values)).run = _
          rw [ExceptT.run_bind, tail]
          cases rest.mapM second <;> rfl

theorem run_candidateLists? (maxSize : Nat) {domains : List Domain}
    (fit : ∀ domain ∈ domains, domain.Fits) :
    (candidateLists? maxSize domains).run = some (candidateLists maxSize domains) := by
  apply run_mapM_of_some
  intro entry member
  exact run_candidates? maxSize entry.2 (fit entry.1 (List.fst_mem_of_mem_zipIdx member))

/-! ### Watch lists -/

def completed (count : Nat) (postings : List Posting) : List (List Posting) :=
  (List.range count).map fun depth =>
    postings.filter fun posting => posting.lastMention? == some depth

@[simp] theorem length_completed (count : Nat) (postings : List Posting) :
    (completed count postings).length = count := by
  simp [completed]

theorem getElem?_completed {count depth : Nat} (known : depth < count) (postings : List Posting) :
    (completed count postings)[depth]? =
      some (postings.filter fun posting => posting.lastMention? == some depth) := by
  simp [completed, known]

theorem watch?_completed {count : Nat} (earlier : List Posting) {posting : Posting}
    (known : ∀ v ∈ posting.mentions, v.id < count) :
    watch? (completed count earlier) posting = some (completed count (earlier ++ [posting])) := by
  cases last : posting.lastMention? with
  | none =>
      rw [watch?, last]
      simp [completed, last]
  | some depth =>
      obtain ⟨⟨v, mentioned, rfl⟩, -⟩ := Posting.lastMention?_eq_some_iff.mp last
      have small := known v mentioned
      have position : v.id < (completed count earlier).length := by simpa using small
      rw [watch?, last]
      show (completed count earlier)[v.id]? >>= _ = _
      rw [bind_of_some (getElem?_completed small earlier), set?, if_pos position]
      congr 1
      apply List.ext_getElem?
      intro other
      by_cases inside : other < count
      · rw [getElem?_completed inside, List.filter_append]
        by_cases same : v.id = other
        · subst same
          simp [last, small]
        · simp [getElem?_completed inside, same, last]
      · simp [completed, inside]

theorem foldlM_watch? {count : Nat} {postings : List Posting}
    (known : ∀ posting ∈ postings, ∀ v ∈ posting.mentions, v.id < count)
    (earlier : List Posting) :
    postings.foldlM watch? (completed count earlier) =
      some (completed count (earlier ++ postings)) := by
  induction postings generalizing earlier with
  | nil => rw [List.append_nil]; rfl
  | cons posting rest inductionHypothesis =>
      have head := watch?_completed earlier (known posting (List.mem_cons_self ..))
      rw [List.foldlM_cons, bind_of_some head, inductionHypothesis]
      · rw [List.append_assoc]
        rfl
      · exact fun other member => known other (List.mem_cons_of_mem _ member)

/-- Each list of postings of known variables is written at a position that it has. -/
theorem watchLists?_eq {count : Nat} {postings : List Posting}
    (known : ∀ posting ∈ postings, ∀ v ∈ posting.mentions, v.id < count) :
    watchLists? count postings = some (completed count postings) := by
  have start : List.replicate count [] = completed count [] := by
    simp [completed]
  rw [watchLists?, start, foldlM_watch? known]
  rfl

end Machine

end Search

end ConstraintCompiler
