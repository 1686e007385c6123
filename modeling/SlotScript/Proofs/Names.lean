import SlotScript.Names
import Mathlib.Data.Finset.Card
import Mathlib.Data.Set.Function

/-!
# Numbers for texts

A table of numbered names lets numbers be compared in place of texts. This is right as long as a number
keeps its text, and a text its number, whatever enters the table later.

**Theorem (`Names.initial_remembers`).** A table that starts with the empty text and the reserved words
answers any sequence of texts, as long as they and the first texts are no more than there are numbers of 32
bits, each counted once. After each sequence the numbers below the size of the table and the texts that have
entered it are in bijection. Every number that was answered has its text, and every text its number, also
after whatever texts follow.

The table is kept both ways round, and the two sides are inverse to each other (`Names.Inverse`): a text has
the number just if the number has the text. A text enters only if it has no number, and it takes a number
that has no text, so both sides change in the same place (`Inverse.push`). That numbers are given to distinct
texts, and that there are as many as texts, follows from this alone.
-/

namespace SlotScript

namespace Names

/-- Interns texts one after the other, and answers with their numbers. -/
def internAll? (names : Names) : List String → Option (List Nat × Names)
  | [] => some ([], names)
  | text :: texts => do
    let (number, names) ← names.intern? text
    let (numbers, names) ← names.internAll? texts
    return (number :: numbers, names)

/-- A text has a number just if the number has the text. -/
def Inverse (names : Names) : Prop :=
  ∀ text number, names.get? text = some number ↔ names.texts[number]? = some text

/-- The texts that have entered a table, in any order and any number of times. -/
structure Holds (names : Names) (texts : List String) : Prop where
  /-- The two sides of the table belong together. -/
  inverse : names.Inverse
  /-- The texts with a number are these. -/
  isSome_iff : ∀ text, (names.get? text).isSome ↔ text ∈ texts
  /-- Every text has a number of 32 bits. -/
  size_le : names.size ≤ UInt32.size

/-- Whatever has a number in one table has the same number in another. -/
def Kept (names later : Names) : Prop :=
  ∀ text number, names.get? text = some number → later.get? text = some number

theorem Kept.refl (names : Names) : names.Kept names := fun _ _ h => h

theorem Kept.trans {names next later : Names} (h : names.Kept next) (hlater : next.Kept later) :
    names.Kept later :=
  fun text number hnumber => hlater text number (h text number hnumber)

/-- A table remembers texts together with the numbers that they were answered with, and no others. -/
structure Remembers (names : Names) (texts : List String) (numbers : List Nat) : Prop where
  /-- Each number has the text that it was the answer to. -/
  map_lookup : numbers.map names.lookup = texts
  /-- Each text has the number that it was answered with. -/
  map_get? : texts.map names.get? = numbers.map some
  /-- No other text has a number. -/
  get?_eq_none : ∀ text, text ∉ texts → names.get? text = none
  /-- Interning one of the texts once more answers with its number and changes nothing. -/
  intern_eq : ∀ text ∈ texts, ∃ number, names.get? text = some number ∧ names.intern text = (number, names)
  /-- Two answers are the same number just if they are answers to the same text. -/
  same_iff : ∀ i j : Nat, numbers[i]? = numbers[j]? ↔ texts[i]? = texts[j]?
  /-- The numbers below the size of the table stand for the texts. -/
  bijOn : Set.BijOn names.lookup (Set.Iio names.size) {text | text ∈ texts}
  /-- The size of the table is the number of distinct texts. -/
  size_eq : names.size = texts.toFinset.card
  /-- All other numbers read as the empty text. -/
  lookup_of_le : ∀ number, names.size ≤ number → names.lookup number = ""

/-! ## One text -/

theorem get?_push (names : Names) (text other : String) :
    (names.push text).get? other = if other = text then some names.size else names.get? other := by
  rw [push, get?, List.lookup_cons]
  by_cases h : other = text
  · rw [beq_iff_eq.mpr h, if_pos h]
  · rw [beq_false_of_ne h, if_neg h]
    rfl

theorem getElem?_push (names : Names) (text : String) (number : Nat) :
    (names.push text).texts[number]? =
      if number = names.size then some text else names.texts[number]? :=
  Array.getElem?_push

/-- A text keeps its number, or takes the next one if there is one left. -/
theorem intern?_eq_some_iff {names next : Names} {text : String} {number : Nat} :
    names.intern? text = some (number, next) ↔
      (names.get? text = some number ∧ next = names) ∨
      (names.get? text = none ∧ names.size < UInt32.size ∧ number = names.size ∧
        next = names.push text) := by
  rw [intern?]
  cases h : names.get? text with
  | some found => simp [eq_comm]
  | none => simp [eq_comm]

namespace Inverse

variable {names : Names} {text other : String} {number : Nat} (h : names.Inverse)

include h

theorem get?_eq_some_iff :
    names.get? text = some number ↔ number < names.size ∧ names.lookup number = text := by
  rw [h text number, lookup, size]
  by_cases hlt : number < names.texts.size <;> simp [hlt]

/-- A text without a number takes the next one, which has no text. -/
theorem push (hnew : names.get? text = none) : (names.push text).Inverse := by
  intro other number
  rw [get?_push, getElem?_push]
  by_cases hother : other = text <;> by_cases hnumber : number = names.size
  · simp [hother, hnumber]
  · -- the text had no number, so no number has it
    have hnone : names.texts[number]? ≠ some text := fun hsome => by
      simp [(h text number).mpr hsome] at hnew
    simp [hother, hnumber, hnone, Ne.symm hnumber]
  · -- the next number had no text, so no text has it
    have hnone : names.get? other ≠ some names.size := fun hsome => by
      simpa using (h.get?_eq_some_iff.mp hsome).1
    simp [hother, hnumber, hnone, Ne.symm hother]
  · simpa [hother, hnumber] using h other number

end Inverse

/-! ## The texts of a table -/

namespace Holds

variable {names later : Names} {texts : List String} {text : String} {number : Nat}

theorem nil : ({} : Names).Holds [] where
  inverse := fun text number => by simp [get?]
  isSome_iff := fun text => by simp [get?]
  size_le := Nat.zero_le _

theorem get?_eq_none_iff (h : names.Holds texts) : names.get? text = none ↔ text ∉ texts := by
  rw [← h.isSome_iff, Option.not_isSome_iff_eq_none]

theorem exists_number (h : names.Holds texts) (htext : text ∈ texts) :
    ∃ number, names.get? text = some number :=
  Option.isSome_iff_exists.mp ((h.isSome_iff text).mpr htext)

theorem bijOn (h : names.Holds texts) :
    Set.BijOn names.lookup (Set.Iio names.size) {text | text ∈ texts} := by
  have hback : ∀ number < names.size, names.get? (names.lookup number) = some number :=
    fun number hlt => h.inverse.get?_eq_some_iff.mpr ⟨hlt, rfl⟩
  refine ⟨fun number hlt => ?_, fun number hlt other hother hsame => ?_, fun text htext => ?_⟩
  · exact (h.isSome_iff _).mp (Option.isSome_of_eq_some (hback number hlt))
  · exact Option.some.inj ((hback number hlt).symm.trans (hsame ▸ hback other hother))
  · obtain ⟨number, hnumber⟩ := h.exists_number htext
    exact ⟨number, h.inverse.get?_eq_some_iff.mp hnumber⟩

/-- A table has as many numbers as texts. -/
theorem size_eq (h : names.Holds texts) : names.size = texts.toFinset.card := by
  have hcard : (Finset.range names.size).card = texts.toFinset.card := by
    obtain ⟨hmaps, hinj, hsurj⟩ := h.bijOn
    exact Finset.card_nbij names.lookup (by simpa using hmaps) (by simpa using hinj) (by simpa using hsurj)
  rwa [Finset.card_range] at hcard

/-- Once a text is interned, the table holds it, with the number that was the answer. All other texts keep
theirs. -/
theorem intern? (h : names.Holds texts) (hrun : names.intern? text = some (number, later)) :
    later.Holds (texts ++ [text]) ∧ later.get? text = some number ∧ names.Kept later := by
  rcases intern?_eq_some_iff.mp hrun with ⟨hfound, rfl⟩ | ⟨hnew, hroom, rfl, rfl⟩
  · have hmem : text ∈ texts := (h.isSome_iff text).mp (Option.isSome_of_eq_some hfound)
    refine ⟨⟨h.inverse, fun other => ?_, h.size_le⟩, hfound, .refl _⟩
    rw [h.isSome_iff, List.mem_append, List.mem_singleton]
    exact ⟨.inl, fun hother => hother.elim id fun heq => heq ▸ hmem⟩
  · refine ⟨⟨h.inverse.push hnew, fun other => ?_, ?_⟩, ?_, fun other found hkept => ?_⟩
    · rw [get?_push, List.mem_append, List.mem_singleton, ← h.isSome_iff]
      by_cases hother : other = text <;> simp [hother]
    · simpa [size, push, Nat.succ_le_iff] using hroom
    · rw [get?_push, if_pos rfl]
    · rw [get?_push, if_neg, hkept]
      rintro rfl
      simp [hnew] at hkept

/-- A table refuses a text only if it has a text for every number. -/
theorem exists_intern? (h : names.Holds texts) (hroom : (texts ++ [text]).toFinset.card ≤ UInt32.size) :
    ∃ number later, names.intern? text = some (number, later) := by
  cases hfound : names.get? text with
  | some number => exact ⟨number, names, intern?_eq_some_iff.mpr (.inl ⟨hfound, rfl⟩)⟩
  | none =>
    have hcard : (texts ++ [text]).toFinset.card = names.size + 1 := by
      have hnew : text ∉ texts.toFinset := by simpa using h.get?_eq_none_iff.mp hfound
      rw [h.size_eq, List.toFinset_append, Finset.union_comm]
      exact Finset.card_insert_of_notMem hnew
    exact ⟨_, _, intern?_eq_some_iff.mpr (.inr ⟨hfound, by omega, rfl, rfl⟩)⟩

end Holds

/-! ## Sequences of texts -/

section

variable {names next later : Names} {before texts : List String} {text : String} {number : Nat}
  {numbers : List Nat}

/-- Texts that have their numbers keep them. -/
theorem Kept.map_get? (h : names.Kept later) (hmap : texts.map names.get? = numbers.map some) :
    texts.map later.get? = numbers.map some := by
  rw [← hmap]
  refine List.map_inj_left.mpr fun text htext => ?_
  obtain ⟨number, -, hnumber⟩ := List.mem_map.mp (hmap ▸ List.mem_map_of_mem htext)
  rw [← hnumber, h text number hnumber.symm]

theorem internAll?_cons_eq_some :
    names.internAll? (text :: texts) = some (numbers, later) ↔
      ∃ number next rest, names.intern? text = some (number, next) ∧
        next.internAll? texts = some (rest, later) ∧ numbers = number :: rest := by
  simp only [internAll?, Option.bind_eq_bind, Option.bind_eq_some_iff, Prod.exists, Option.pure_def,
    Option.some.injEq, Prod.mk.injEq]
  constructor
  · rintro ⟨number, next, hfirst, rest, _, hrest, rfl, rfl⟩
    exact ⟨number, next, rest, hfirst, hrest, rfl⟩
  · rintro ⟨number, next, rest, hfirst, hrest, rfl⟩
    exact ⟨number, next, hfirst, rest, later, hrest, rfl, rfl⟩

/-- What one text preserves, all texts of a sequence do. -/
theorem Holds.internAll? (h : names.Holds before) (hrun : names.internAll? texts = some (numbers, later)) :
    later.Holds (before ++ texts) ∧ texts.map later.get? = numbers.map some ∧ names.Kept later := by
  induction texts generalizing names before numbers with
  | nil =>
    obtain ⟨rfl, rfl⟩ : [] = numbers ∧ names = later := by simpa [Names.internAll?] using hrun
    exact ⟨by simpa using h, rfl, .refl _⟩
  | cons text texts ih =>
    obtain ⟨number, next, rest, hfirst, hrest, rfl⟩ := internAll?_cons_eq_some.mp hrun
    obtain ⟨hnext, hnumber, hkept⟩ := h.intern? hfirst
    obtain ⟨hlater, hmap, hkeeps⟩ := ih hnext hrest
    refine ⟨by simpa using hlater, ?_, hkept.trans hkeeps⟩
    rw [List.map_cons, List.map_cons, hkeeps text number hnumber, hmap]

/-- A sequence of texts is answered if there are numbers enough for the texts of the table and its own. -/
theorem Holds.exists_internAll? (h : names.Holds before)
    (hroom : (before ++ texts).toFinset.card ≤ UInt32.size) :
    ∃ numbers later, names.internAll? texts = some (numbers, later) := by
  induction texts generalizing names before with
  | nil => exact ⟨[], names, rfl⟩
  | cons text texts ih =>
    have hall : before ++ text :: texts = before ++ [text] ++ texts := by simp
    have hfront : (before ++ [text]).toFinset.card ≤ (before ++ [text] ++ texts).toFinset.card :=
      Finset.card_le_card (by simp [List.toFinset_append, Finset.subset_union_left])
    rw [hall] at hroom
    obtain ⟨number, next, hfirst⟩ := h.exists_intern? (hfront.trans hroom)
    obtain ⟨rest, later, hrest⟩ := ih (h.intern? hfirst).1 hroom
    exact ⟨_, _, internAll?_cons_eq_some.mpr ⟨number, next, rest, hfirst, hrest, rfl⟩⟩

/-- A number reads as the text that it was the answer to. -/
theorem Holds.map_lookup (h : names.Holds texts) (hmap : texts.map names.get? = numbers.map some) :
    numbers.map names.lookup = texts := by
  have hread : ∀ text ∈ texts, (names.get? text).map names.lookup = some text := fun text htext => by
    obtain ⟨number, hnumber⟩ := h.exists_number htext
    rw [hnumber, Option.map_some, (h.inverse.get?_eq_some_iff.mp hnumber).2]
  refine List.map_injective_iff.mpr (Option.some_injective String) ?_
  calc (numbers.map names.lookup).map some
      = (numbers.map some).map (Option.map names.lookup) := by simp
    _ = texts.map fun text => (names.get? text).map names.lookup := by rw [← hmap, List.map_map]; rfl
    _ = texts.map some := List.map_congr_left hread

/-- What is asked of a table follows from what it holds and from the answers that it gave. -/
theorem Holds.remembers (h : names.Holds texts) (hmap : texts.map names.get? = numbers.map some) :
    names.Remembers texts numbers where
  map_lookup := h.map_lookup hmap
  map_get? := hmap
  get?_eq_none := fun text => h.get?_eq_none_iff.mpr
  intern_eq := fun text htext => by
    obtain ⟨number, hnumber⟩ := h.exists_number htext
    refine ⟨number, hnumber, ?_⟩
    rw [intern, intern?_eq_some_iff.mpr (.inl ⟨hnumber, rfl⟩), Option.getD_some]
  same_iff := fun i j => by
    have hget := fun k : Nat => congrArg (·[k]?) hmap
    simp only [List.getElem?_map] at hget
    constructor <;> intro hsame
    · rw [← h.map_lookup hmap, List.getElem?_map, List.getElem?_map, hsame]
    · refine Option.map_injective (Option.some_injective Nat) ?_
      rw [← hget, ← hget, hsame]
  bijOn := h.bijOn
  size_eq := h.size_eq
  lookup_of_le := fun number hle => by
    rw [lookup, Array.getElem?_eq_none hle, Option.getD_none]

end

/-- The first texts have the first numbers. -/
theorem internAll?_firstTexts :
    ({} : Names).internAll? firstTexts = some (List.range firstTexts.length, initial) := rfl

/-- **Numbers and texts stay in bijection.** -/
theorem initial_remembers (texts : List String) :
    ((∃ numbers names, initial.internAll? texts = some (numbers, names)) ↔
      (firstTexts ++ texts).toFinset.card ≤ UInt32.size) ∧
    ∀ numbers names, initial.internAll? texts = some (numbers, names) →
      names.Remembers (firstTexts ++ texts) (List.range firstTexts.length ++ numbers) ∧
      ∀ more answers later, names.internAll? more = some (answers, later) →
        later.Remembers (firstTexts ++ texts ++ more) (List.range firstTexts.length ++ numbers ++ answers) ∧
        ∀ number < names.size, later.lookup number = names.lookup number := by
  obtain ⟨hinitial, hfirst, -⟩ := Holds.nil.internAll? internAll?_firstTexts
  rw [List.nil_append] at hinitial
  refine ⟨⟨?_, hinitial.exists_internAll?⟩, fun numbers names hrun => ?_⟩
  · rintro ⟨numbers, names, hrun⟩
    have hnames := (hinitial.internAll? hrun).1
    rw [← hnames.size_eq]
    exact hnames.size_le
  · obtain ⟨hnames, hmap, hkept⟩ := hinitial.internAll? hrun
    have hall : (firstTexts ++ texts).map names.get? =
        (List.range firstTexts.length ++ numbers).map some := by
      rw [List.map_append, List.map_append, hkept.map_get? hfirst, hmap]
    refine ⟨hnames.remembers hall, fun more answers later hmore => ?_⟩
    obtain ⟨hlater, hanswers, hkeeps⟩ := hnames.internAll? hmore
    refine ⟨hlater.remembers ?_, fun number hlt => ?_⟩
    · rw [List.map_append, List.map_append (f := some), hkeeps.map_get? hall, hanswers]
    · have hnumber := hnames.inverse.get?_eq_some_iff.mpr ⟨hlt, rfl⟩
      exact (hlater.inverse.get?_eq_some_iff.mp (hkeeps _ _ hnumber)).2

/-- A reserved word, the empty text and a text that was interned before have the numbers that they had. -/
theorem initial_remembers_words :
    initial.internAll? ["x", "while", "x", ""] = some ([26, 15, 26, 0], initial.push "x") ∧
    (initial.push "x").internAll? ["y", "x"] = some ([27, 26], (initial.push "x").push "y") ∧
    ((initial.push "x").push "y").Remembers (firstTexts ++ ["x", "while", "x", ""] ++ ["y", "x"])
      (List.range firstTexts.length ++ [26, 15, 26, 0] ++ [27, 26]) ∧
    ∀ number < (initial.push "x").size,
      ((initial.push "x").push "y").lookup number = (initial.push "x").lookup number := by
  have hrun : initial.internAll? ["x", "while", "x", ""] = some ([26, 15, 26, 0], initial.push "x") := rfl
  have hmore : (initial.push "x").internAll? ["y", "x"] = some ([27, 26], (initial.push "x").push "y") := rfl
  exact ⟨hrun, hmore, ((initial_remembers _).2 _ _ hrun).2 _ _ _ hmore⟩

end Names

end SlotScript
