import Mathlib.Data.List.Infix
import Letta.Block

/-!
# ILIKE

The search filters of `get_blocks_async` (lines 223–230) are
`column.ilike(f"%{s}%")`: the search string is pasted into a PostgreSQL
`ILIKE` pattern as it is. In a pattern `%` matches any run of characters,
`_` any one character and a backslash (the default escape) makes the next
character literal; every other character matches itself up to case.

`ilikeMatch` is that matcher, structural on the pattern. For a search string
without metacharacters the filter is exactly "occurs in the column, ignoring
case" (`ilike_searchPattern_iff`); a `_` or `%` in it widens the match, which
`Letta.Listing` shows on `get_blocks_async` itself.
-/

namespace Letta

/-- PostgreSQL `ILIKE` on character lists. Case is folded by `Char.toLower`;
a trailing backslash, which the server rejects, is read as a literal. -/
def ilikeMatch : List Char → List Char → Bool
  | [], t => t.isEmpty
  | '%' :: p, t => (List.range (t.length + 1)).any fun k => ilikeMatch p (t.drop k)
  | '_' :: p, t => match t with
    | [] => false
    | _ :: t => ilikeMatch p t
  | '\\' :: c :: p, t => match t with
    | [] => false
    | d :: t => c.toLower == d.toLower && ilikeMatch p t
  | c :: p, t => match t with
    | [] => false
    | d :: t => c.toLower == d.toLower && ilikeMatch p t

/-- The pattern `f"%{s}%"` the code builds from a search string. -/
def searchPattern (s : String) : List Char := '%' :: (s.data ++ ['%'])

/-- `column.ilike(pattern)` on a non-null column. -/
def ilike (column : String) (pattern : List Char) : Bool := ilikeMatch pattern column.data

/-- What a search filter is meant to be: `s` occurs in `t`, ignoring case. -/
def caseInsensitiveInfix (s t : String) : Prop := s.data.map Char.toLower <:+: t.data.map Char.toLower

instance (s t : String) : Decidable (caseInsensitiveInfix s t) :=
  inferInstanceAs (Decidable (_ <:+: _))

/-- A character `ILIKE` reads as itself. -/
def plainChar (c : Char) : Prop := c ≠ '%' ∧ c ≠ '_' ∧ c ≠ '\\'

instance (c : Char) : Decidable (plainChar c) := inferInstanceAs (Decidable (_ ∧ _ ∧ _))

/-! ## The matcher, case by case -/

theorem ilikeMatch_percent (p t : List Char) :
    ilikeMatch ('%' :: p) t = true ↔ ∃ a r, t = a ++ r ∧ ilikeMatch p r = true := by
  simp only [ilikeMatch, List.any_eq_true, List.mem_range]
  constructor
  · rintro ⟨k, -, hk⟩
    exact ⟨t.take k, t.drop k, (List.take_append_drop k t).symm, hk⟩
  · rintro ⟨a, r, rfl, hr⟩
    exact ⟨a.length, by simp only [List.length_append]; omega, by simpa using hr⟩

theorem ilikeMatch_plain {c : Char} (hc : plainChar c) (p : List Char) (d : Char) (t : List Char) :
    ilikeMatch (c :: p) (d :: t) = (c.toLower == d.toLower && ilikeMatch p t) := by
  obtain ⟨h1, h2, h3⟩ := hc
  rw [ilikeMatch.eq_def]
  split <;> simp_all

theorem ilikeMatch_plain_nil {c : Char} (hc : plainChar c) (p : List Char) :
    ilikeMatch (c :: p) [] = false := by
  obtain ⟨h1, h2, h3⟩ := hc
  unfold ilikeMatch
  split <;> simp_all

/-- A trailing `%` matches every rest. -/
theorem ilikeMatch_percent_nil (t : List Char) : ilikeMatch ['%'] t = true :=
  (ilikeMatch_percent [] t).mpr ⟨t, [], (List.append_nil t).symm, rfl⟩

/-- A run of plain characters matches a prefix equal to it up to case. -/
theorem ilikeMatch_plain_append (q : List Char) :
    ∀ {l : List Char}, (∀ c ∈ l, plainChar c) → ∀ t : List Char,
      ilikeMatch (l ++ q) t = true ↔
        ∃ u v, t = u ++ v ∧ u.map Char.toLower = l.map Char.toLower ∧ ilikeMatch q v = true
  | [], _, t => by
      simp only [List.nil_append, List.map_nil, List.map_eq_nil_iff]
      exact ⟨fun h => ⟨[], t, rfl, rfl, h⟩, by rintro ⟨_, v, rfl, rfl, hv⟩; exact hv⟩
  | c :: l, hl, t => by
      have hc := hl c (List.mem_cons_self c l)
      have ih := ilikeMatch_plain_append q fun x hx => hl x (List.mem_cons_of_mem c hx)
      cases t with
      | nil => simp [ilikeMatch_plain_nil hc]
      | cons d t =>
          rw [List.cons_append, ilikeMatch_plain hc, Bool.and_eq_true, beq_iff_eq, ih t]
          constructor
          · rintro ⟨hd, u, v, rfl, hu, hv⟩
            exact ⟨d :: u, v, rfl, by simp [hd, hu], hv⟩
          · rintro ⟨_ | ⟨d', u⟩, v, ht, hu, hv⟩
            · simp at hu
            · simp only [List.cons_append, List.cons.injEq] at ht
              obtain ⟨rfl, rfl⟩ := ht
              simp only [List.map_cons, List.cons.injEq] at hu
              exact ⟨hu.1.symm, u, v, rfl, hu.2, hv⟩

theorem ilikeMatch_search_iff {l : List Char} (hl : ∀ c ∈ l, plainChar c) (t : List Char) :
    ilikeMatch ('%' :: (l ++ ['%'])) t = true ↔ l.map Char.toLower <:+: t.map Char.toLower := by
  rw [ilikeMatch_percent]
  simp only [ilikeMatch_plain_append ['%'] hl, ilikeMatch_percent_nil, and_true]
  constructor
  · rintro ⟨a, r, rfl, u, v, rfl, hu⟩
    exact ⟨a.map Char.toLower, v.map Char.toLower, by simp [hu]⟩
  · rintro ⟨a', v', ht⟩
    obtain ⟨a, r, rfl, -, hr⟩ := List.append_eq_map_iff.mp (List.append_assoc _ _ _ ▸ ht)
    obtain ⟨u, v, rfl, hu, -⟩ := List.append_eq_map_iff.mp hr.symm
    exact ⟨a, u ++ v, rfl, u, v, rfl, hu⟩

/-- **Plain search strings.** For a search string with no `%`, `_` or
backslash, the pattern `%s%` matches exactly the columns in which `s`
occurs, ignoring case. -/
theorem ilike_searchPattern_iff {s : String} (hs : ∀ c ∈ s.data, plainChar c) (t : String) :
    ilike t (searchPattern s) = true ↔ caseInsensitiveInfix s t :=
  ilikeMatch_search_iff hs t.data

theorem ilike_searchPattern_iff_sample :
    (∀ c ∈ "abc".data, plainChar c) ∧
      (ilike "xABCy" (searchPattern "abc") = true ↔ caseInsensitiveInfix "abc" "xABCy") :=
  ⟨by decide, ilike_searchPattern_iff (by decide) _⟩

end Letta
