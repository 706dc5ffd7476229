import ExprGraph.Text.Blank
import Mathlib.Data.List.TakeWhile

set_option autoImplicit false

namespace ExprGraph.Text

variable {cs before core after : List Char}

def Blank (cs : List Char) : Prop := ∀ c ∈ cs, isBlank c

structure Bare (cs : List Char) : Prop where
  first : ∀ c ∈ cs.head?, isBlank c = false
  last : ∀ c ∈ cs.getLast?, isBlank c = false

inductive Trims : List Char → List Char → Prop where
  | intro {before core after : List Char} : Blank before → Bare core → Blank after →
      Trims (before ++ core ++ after) core

theorem trimStart_append (blank : Blank before) (first : ∀ c ∈ core.head?, isBlank c = false) :
    trimStart (before ++ core) = core := by
  rw [trimStart, List.dropWhile_append_of_pos blank]
  cases core with
  | nil => rfl
  | cons c rest =>
    have visible : isBlank c = false := first c rfl
    simp [visible]

theorem trim_append (left : Blank before) (bare : Bare core) (right : Blank after) :
    trim (before ++ core ++ after) = core := by
  have start : trimStart (before ++ core ++ after) = trimStart (core ++ after) := by
    rw [List.append_assoc, trimStart, List.dropWhile_append_of_pos left]
    rfl
  have ends : Blank after.reverse := fun c member => right c (List.mem_reverse.mp member)
  rw [trim, start]
  cases core with
  | nil =>
    have nothing : trimStart (after ++ []) = [] := trimStart_append right (by simp)
    rw [List.append_nil] at nothing
    rw [List.nil_append, nothing]
    rfl
  | cons c rest =>
    have kept : trimStart ([] ++ (c :: rest ++ after)) = c :: rest ++ after :=
      trimStart_append (by simp [Blank]) bare.first
    rw [List.nil_append] at kept
    rw [kept, trimEnd, List.reverse_append, trimStart_append ends, List.reverse_reverse]
    rw [List.head?_reverse]
    exact bare.last

theorem exists_trimStart (cs : List Char) :
    ∃ before, Blank before ∧ cs = before ++ trimStart cs ∧
      ∀ c ∈ (trimStart cs).head?, isBlank c = false := by
  refine ⟨cs.takeWhile isBlank, fun c member => List.mem_takeWhile_imp member,
    (List.takeWhile_append_dropWhile ..).symm, ?_⟩
  intro c head
  have stops := List.head?_dropWhile_not isBlank cs
  rw [trimStart] at head
  rw [Option.mem_def.mp head] at stops
  simpa using stops

theorem trims_trim (cs : List Char) : Trims cs (trim cs) := by
  obtain ⟨before, left, split, first⟩ := exists_trimStart cs
  obtain ⟨after, right, endSplit, last⟩ := exists_trimStart (trimStart cs).reverse
  have parts : trimStart cs = trim cs ++ after.reverse := by
    rw [← List.reverse_inj, List.reverse_append, List.reverse_reverse, trim, trimEnd,
      List.reverse_reverse]
    exact endSplit
  have bare : Bare (trim cs) := by
    constructor
    · intro c head
      apply first c
      obtain ⟨rest, text⟩ := List.head?_eq_some_iff.mp head
      rw [parts, text]
      rfl
    · rw [trim, trimEnd, List.getLast?_reverse]
      exact last
  have whole : cs = before ++ trim cs ++ after.reverse := by
    rw [List.append_assoc, ← parts, ← split]
  have trims := Trims.intro left bare fun c member => right c (List.mem_reverse.mp member)
  rwa [← whole] at trims

theorem trim_eq_iff : trim cs = core ↔ Trims cs core := by
  constructor
  · rintro rfl
    exact trims_trim cs
  · rintro ⟨left, bare, right⟩
    exact trim_append left bare right

end ExprGraph.Text
