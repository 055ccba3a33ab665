import ConstraintCompiler.Posting.Verdict
import Mathlib.Data.List.Forall2

/-!
Contract: results that may be missing.

Owns:
- that an item of a list stays where it is when more follow, and what may stand in a list with one
  more item;
- `Keeps`, that a result stays if it is there, and that what is made of results that stay does so
  as well;
- the law that reading a list succeeds with the list of its results and fails with one of its
  items, and what follows from it for two ways of reading;
- the laws that a chain of checks succeeds exactly when each of them does, and that a list of checks
  fails exactly when one of them does.
-/

namespace ConstraintCompiler

theorem getElem?_append_of_some {α : Type} {items : List α} {position : Nat} {item : α}
    (found : items[position]? = some item) (more : List α) :
    (items ++ more)[position]? = some item :=
  (List.getElem?_append_left (List.getElem?_eq_some_iff.mp found).1).trans found

/-- An item of a list with one more item at its end is an item of the list, or the last one. -/
theorem getElem?_concat_cases {α : Type} {items : List α} {last item : α} {position : Nat}
    (found : (items ++ [last])[position]? = some item) :
    items[position]? = some item ∨ position = items.length ∧ item = last := by
  by_cases earlier : position < items.length
  · rw [List.getElem?_append_left earlier] at found
    exact .inl found
  · rw [List.getElem?_append_right (Nat.le_of_not_lt earlier), List.getElem?_singleton] at found
    split at found
    · cases found
      exact .inr ⟨by omega, rfl⟩
    · cases found

theorem mem_of_itemAt? {α : Type} {items : List α} {position : Int} {item : α}
    (found : itemAt? items position = some item) : item ∈ items := by
  unfold itemAt? at found
  split at found
  · cases found
  · exact List.mem_of_getElem? found

/-- Reading a list succeeds exactly when reading every item does. -/
theorem mapM_eq_some_iff {α β : Type} {read : α → Option β} {items : List α} {results : List β} :
    items.mapM read = some results ↔
      List.Forall₂ (fun item result => read item = some result) items results := by
  induction items generalizing results with
  | nil =>
      rw [List.mapM_nil, List.forall₂_nil_left_iff]
      constructor
      · intro read
        exact (Option.some.inj read).symm
      · rintro rfl
        rfl
  | cons item rest inductionHypothesis =>
      simp only [List.mapM_cons, Option.bind_eq_bind, Option.bind_eq_some_iff,
        Option.pure_def, Option.some.injEq, inductionHypothesis, List.forall₂_cons_left_iff]
      constructor
      · rintro ⟨result, first, results, others, rfl⟩
        exact ⟨result, results, first, others, rfl⟩
      · rintro ⟨result, results, first, others, rfl⟩
        exact ⟨result, first, results, others, rfl⟩

/-- What one way of reading finds in a list, a way that finds as much in every item finds too. -/
theorem mapM_mono {α β : Type} {first second : α → Option β} {items : List α} {results : List β}
    (finds : ∀ item ∈ items, ∀ result, first item = some result → second item = some result)
    (found : items.mapM first = some results) : items.mapM second = some results := by
  rw [mapM_eq_some_iff] at found ⊢
  induction found with
  | nil => exact .nil
  | cons head _ inductionHypothesis =>
      refine .cons (finds _ (by simp) _ head) (inductionHypothesis ?_)
      intro item member
      exact finds item (List.mem_cons_of_mem _ member)

def Keeps {α : Type} (first second : Option α) : Prop :=
  ∀ result, first = some result → second = some result

namespace Keeps

variable {α β : Type}

theorem refl (result : Option α) : Keeps result result := fun _ found => found

theorem antisymm {first second : Option α} (forward : Keeps first second)
    (backward : Keeps second first) : first = second :=
  Option.ext fun result => ⟨forward result, backward result⟩

/-- What comes after a result stays when the result does and the next step keeps its own. -/
theorem bind {first second : Option α} (kept : Keeps first second)
    {firstNext secondNext : α → Option β}
    (next : ∀ value, Keeps (firstNext value) (secondNext value)) :
    Keeps (first >>= firstNext) (second >>= secondNext) := by
  intro result found
  obtain ⟨value, read, rest⟩ := Option.bind_eq_some_iff.mp found
  exact Option.bind_eq_some_iff.mpr ⟨value, kept value read, next value result rest⟩

theorem mapM {items : List α} {first second : α → Option β}
    (each : ∀ item ∈ items, Keeps (first item) (second item)) :
    Keeps (items.mapM first) (items.mapM second) :=
  fun _ found => mapM_mono each found

end Keeps

theorem mapM_congr {α β : Type} {first second : α → Option β} {items : List α}
    (same : ∀ item ∈ items, first item = second item) :
    items.mapM first = items.mapM second := by
  refine Option.ext fun results => ⟨mapM_mono ?_, mapM_mono ?_⟩
  · exact fun item member result found => (same item member).symm.trans found
  · exact fun item member result found => (same item member).trans found

theorem exists_mapM_eq_some {α β : Type} {read : α → Option β} {items : List α}
    (each : ∀ item ∈ items, ∃ result, read item = some result) :
    ∃ results, items.mapM read = some results := by
  induction items with
  | nil => exact ⟨[], rfl⟩
  | cons item rest inductionHypothesis =>
      obtain ⟨result, head⟩ := each item (by simp)
      obtain ⟨results, tail⟩ :=
        inductionHypothesis fun other member => each other (List.mem_cons_of_mem _ member)
      exact ⟨result :: results, mapM_eq_some_iff.mpr (.cons head (mapM_eq_some_iff.mp tail))⟩

theorem exists_of_mem_mapM {α β : Type} {read : α → Option β} {items : List α}
    {results : List β} (found : items.mapM read = some results) {result : β}
    (member : result ∈ results) : ∃ item ∈ items, read item = some result := by
  rw [mapM_eq_some_iff] at found
  induction found with
  | nil => simp at member
  | cons head _ inductionHypothesis =>
      rcases List.mem_cons.mp member with rfl | member
      · exact ⟨_, by simp, head⟩
      · obtain ⟨item, itemMember, itemRead⟩ := inductionHypothesis member
        exact ⟨item, List.mem_cons_of_mem _ itemMember, itemRead⟩

/-- In lists that are related item by item, every item on the left has a partner. -/
theorem exists_of_mem_forall₂ {α β : Type} {related : α → β → Prop} {items : List α}
    {partners : List β} (each : List.Forall₂ related items partners) {item : α}
    (member : item ∈ items) : ∃ partner ∈ partners, related item partner := by
  induction each with
  | nil => simp at member
  | cons head _ inductionHypothesis =>
      rcases List.mem_cons.mp member with rfl | member
      · exact ⟨_, by simp, head⟩
      · obtain ⟨partner, partnerMember, holds⟩ := inductionHypothesis member
        exact ⟨partner, List.mem_cons_of_mem _ partnerMember, holds⟩

theorem mapM_eq_none_iff {α β : Type} {read : α → Option β} {items : List α} :
    items.mapM read = none ↔ ∃ item ∈ items, read item = none := by
  constructor
  · intro fails
    by_contra present
    push Not at present
    obtain ⟨results, found⟩ := exists_mapM_eq_some fun item member =>
      Option.ne_none_iff_exists'.mp (present item member)
    exact Option.some_ne_none results (found.symm.trans fails)
  · rintro ⟨item, member, fails⟩
    rw [Option.eq_none_iff_forall_not_mem]
    intro results found
    obtain ⟨_, _, itemRead⟩ := exists_of_mem_forall₂ (mapM_eq_some_iff.mp found) member
    exact absurd (fails.symm.trans itemRead) nofun

/-- A check followed by others succeeds exactly when it does and the others do after it. -/
theorem except_bind_eq_ok {ε α β : Type} {check : Except ε α} {next : α → Except ε β}
    {result : β} :
    (check >>= next) = .ok result ↔ ∃ value, check = .ok value ∧ next value = .ok result := by
  cases check with
  | error fault => simp [bind, Except.bind]
  | ok value => simp [bind, Except.bind]

/-- A list of checks that succeed one way each has the list of their results. -/
theorem eq_map_of_mapM_eq_ok {ε α β : Type} {check : α → Except ε β} {value : α → β}
    (each : ∀ {item result}, check item = .ok result → result = value item)
    {items : List α} {results : List β} (passed : items.mapM check = .ok results) :
    results = items.map value := by
  induction items generalizing results with
  | nil =>
      cases passed
      rfl
  | cons item rest inductionHypothesis =>
      rw [List.mapM_cons, except_bind_eq_ok] at passed
      obtain ⟨first, head, passed⟩ := passed
      rw [except_bind_eq_ok] at passed
      obtain ⟨others, tail, passed⟩ := passed
      cases passed
      rw [List.map_cons, ← each head, ← inductionHypothesis tail]

/-- A list of checks fails exactly when one of them does. -/
theorem exists_mapM_eq_error_iff {ε α β : Type} {check : α → Except ε β} {items : List α} :
    (∃ fault, items.mapM check = .error fault) ↔
      ∃ item ∈ items, ∃ fault, check item = .error fault := by
  induction items with
  | nil => simp [pure, Except.pure]
  | cons item rest inductionHypothesis =>
      rw [List.exists_mem_cons_iff, ← inductionHypothesis, List.mapM_cons]
      cases check item with
      | error fault => simp [bind, Except.bind]
      | ok value => cases rest.mapM check <;> simp [bind, Except.bind, pure, Except.pure]

end ConstraintCompiler
