import OxidizedSystemd.Lib.Text

/-!
# Lines

The lines of a text, as lists of characters.

* `textLines`: `str::lines`.
* `splitOn_unlines`, `textLines_unlines`: what lines that are written one after another are read as.

The elements of a stream may have tags: a line then ends at a separator, where the tag changes,
or at the end, and a line that ends without a separator is not empty.

* `Lines`: the lines of a stream.
* `linesFrom`: the lines of the rest of a stream behind the start of a line.
* `lines_linesFrom`: they are the lines of the stream, whatever the start of the line is.
* `Lines.flatMap`: the lines hold all elements but the separators, in order and with their tags.
-/

namespace OxidizedSystemd.Lib

/-- A line without the carriage return at its end. -/
def stripCr (line : List Char) : List Char :=
  if line.getLast? = some '\r' then line.dropLast else line

/-- `str::lines`: the last line may end without a line feed. -/
def textLines (text : List Char) : List (List Char) :=
  let pieces := text.splitOn '\n'
  pieces.dropLast.map stripCr ++ pieces.getLast?.toList.filter (· ≠ [])

/-- Lines, each with a line feed behind it. -/
def unlines (lines : List (List Char)) : List Char := lines.flatMap (· ++ ['\n'])

theorem stripCr_of_ne {line : List Char} (h : line.getLast? ≠ some '\r') : stripCr line = line :=
  if_neg h

theorem mem_of_mem_stripCr {line : List Char} {c : Char} (h : c ∈ stripCr line) : c ∈ line := by
  rw [stripCr] at h
  split at h
  · exact List.dropLast_subset line h
  · exact h

theorem splitOn_unlines (lines : List (List Char)) :
    (unlines lines).splitOn '\n' = lines.flatMap (List.splitOn '\n') ++ [[]] := by
  induction lines with
  | nil => rfl
  | cons line lines ih =>
    have hcons : unlines (line :: lines) = line ++ '\n' :: unlines lines := by
      simp [unlines]
    rw [hcons, List.splitOn_append_cons_self, ih, List.flatMap_cons, List.append_assoc]

theorem textLines_unlines (lines : List (List Char)) :
    textLines (unlines lines) = lines.flatMap fun line => (line.splitOn '\n').map stripCr := by
  rw [textLines, splitOn_unlines]
  simp [List.map_flatMap]

/-- Lines without line feeds are read as they are, but for a carriage return at the end. -/
theorem textLines_unlines_of_not_mem {lines : List (List Char)} (h : ∀ line ∈ lines, '\n' ∉ line) :
    textLines (unlines lines) = lines.map stripCr := by
  rw [textLines_unlines]
  induction lines with
  | nil => rfl
  | cons line lines ih =>
    obtain ⟨hline, hlines⟩ := List.forall_mem_cons.mp h
    rw [List.flatMap_cons, ih hlines, List.splitOn_eq_singleton hline]
    rfl

/-- A piece between separators has no separator. -/
theorem not_mem_of_mem_splitOn {a : Char} {cs piece : List Char} (h : piece ∈ cs.splitOn a) :
    a ∉ piece := by
  induction cs generalizing piece with
  | nil =>
    rw [List.splitOn_nil, List.mem_singleton] at h
    simp [h]
  | cons c cs ih =>
    rw [List.splitOn_cons_eq_if_modifyHead] at h
    split at h
    · cases List.mem_cons.mp h with
      | inl h => simp [h]
      | inr h => exact ih h
    · rename_i hne
      obtain ⟨first, rest, hsplit⟩ := List.exists_cons_of_ne_nil (List.splitOn_ne_nil a cs)
      rw [hsplit, List.modifyHead_cons, List.mem_cons] at h
      cases h with
      | inl h =>
        rw [h, List.mem_cons, not_or]
        exact ⟨fun heq => hne (by simp [heq]), ih (by simp [hsplit])⟩
      | inr h => exact ih (by simp [hsplit, h])

/-- The first piece is at the start, and the others are behind separators. -/
theorem places_splitOn (a : Char) (cs : List Char) :
    (∀ first rest, cs.splitOn a = first :: rest →
      first <+: cs ∧ ∀ piece ∈ rest, a :: piece <:+: cs) := by
  induction cs with
  | nil =>
    intro first rest h
    rw [List.splitOn_nil] at h
    cases h
    exact ⟨List.nil_prefix, fun piece h => absurd h List.not_mem_nil⟩
  | cons c cs ih =>
    intro first rest h
    obtain ⟨first', rest', hsplit⟩ := List.exists_cons_of_ne_nil (List.splitOn_ne_nil a cs)
    obtain ⟨hfirst, hrest⟩ := ih first' rest' hsplit
    rw [List.splitOn_cons_eq_if_modifyHead, hsplit] at h
    split at h
    · rename_i heq
      rw [beq_iff_eq] at heq
      cases h
      subst heq
      refine ⟨List.nil_prefix, List.forall_mem_cons.mpr ⟨?_, ?_⟩⟩
      · exact (List.cons_prefix_cons.mpr ⟨rfl, hfirst⟩).isInfix
      · exact fun piece hpiece => List.infix_cons (hrest piece hpiece)
    · cases h
      refine ⟨List.cons_prefix_cons.mpr ⟨rfl, hfirst⟩, ?_⟩
      exact fun piece hpiece => List.infix_cons (hrest piece hpiece)

theorem prefix_or_infix_of_mem_splitOn {a : Char} {cs piece : List Char}
    (h : piece ∈ cs.splitOn a) : piece <+: cs ∨ a :: piece <:+: cs := by
  obtain ⟨first, rest, hsplit⟩ := List.exists_cons_of_ne_nil (List.splitOn_ne_nil a cs)
  obtain ⟨hfirst, hrest⟩ := places_splitOn a cs first rest hsplit
  rw [hsplit] at h
  rcases List.mem_cons.mp h with rfl | h
  · exact .inl hfirst
  · exact .inr (hrest piece h)

/-- What has no separator is put in front of the first piece. -/
theorem splitOn_append_of_not_mem {c : Char} {front : List Char} (h : c ∉ front)
    (rest : List Char) : (front ++ rest).splitOn c = (rest.splitOn c).modifyHead (front ++ ·) := by
  induction front with
  | nil => cases hrest : rest.splitOn c <;> simp [hrest]
  | cons a front ih =>
    rw [List.mem_cons, not_or] at h
    have hne : (a == c) = false := beq_eq_false_iff_ne.mpr (Ne.symm h.1)
    rw [List.cons_append, List.splitOn_cons_eq_if_modifyHead, hne, ih h.2]
    cases rest.splitOn c <;> simp

/-- Lines without line feeds are found again. -/
theorem splitOn_flatMap {lines : List (List Char)} (h : ∀ line ∈ lines, '\n' ∉ line) :
    (lines.flatMap (· ++ ['\n'])).splitOn '\n' = lines ++ [[]] := by
  induction lines with
  | nil => rfl
  | cons line lines ih =>
    obtain ⟨hline, hlines⟩ := List.forall_mem_cons.mp h
    rw [List.flatMap_cons, List.append_assoc, List.singleton_append,
      List.splitOn_append_cons_self_of_not_mem hline, ih hlines, List.cons_append]

/-- The lines of a text have no line feeds. -/
theorem newline_not_mem_of_mem_textLines {text line : List Char} (h : line ∈ textLines text) :
    '\n' ∉ line := by
  rw [textLines, List.mem_append] at h
  rcases h with h | h
  · obtain ⟨piece, hpiece, rfl⟩ := List.mem_map.mp h
    intro hmem
    exact not_mem_of_mem_splitOn (List.dropLast_subset _ hpiece) (mem_of_mem_stripCr hmem)
  · have hlast := Option.mem_toList.mp (List.mem_filter.mp h).1
    exact not_mem_of_mem_splitOn (List.mem_of_getLast? hlast)

/-! ## Lines with one writer -/

section

variable {α τ : Type*}

/-- Elements with a tag. -/
def tagged (t : τ) (as : List α) : List (α × τ) := as.map fun a => (a, t)

@[simp] theorem tagged_nil (t : τ) : tagged t ([] : List α) = [] := rfl

@[simp] theorem tagged_cons (t : τ) (a : α) (as : List α) :
    tagged t (a :: as) = (a, t) :: tagged t as := rfl

@[simp] theorem tagged_append (t : τ) (as bs : List α) :
    tagged t (as ++ bs) = tagged t as ++ tagged t bs := List.map_append

/-- The lines of a stream, each with its tag. -/
inductive Lines (sep : α) : List (α × τ) → List (List α × τ) → Prop
  | done : Lines sep [] []
  | separator {line : List α} {t : τ} {rest : List (α × τ)} {lines : List (List α × τ)} :
      sep ∉ line → Lines sep rest lines →
      Lines sep (tagged t line ++ (sep, t) :: rest) ((line, t) :: lines)
  | change {line : List α} {t t' : τ} {a : α} {rest : List (α × τ)} {lines : List (List α × τ)} :
      sep ∉ line → line ≠ [] → t' ≠ t → Lines sep ((a, t') :: rest) lines →
      Lines sep (tagged t line ++ (a, t') :: rest) ((line, t) :: lines)
  | atEnd {line : List α} {t : τ} :
      sep ∉ line → line ≠ [] → Lines sep (tagged t line) [(line, t)]

variable {sep a : α} {t t' : τ} {line : List α} {rest stream : List (α × τ)}
  {lines : List (List α × τ)}

/-- The lines hold every element that is no separator once, in order and with its tag. -/
theorem Lines.flatMap [DecidableEq α] (h : Lines sep stream lines) :
    lines.flatMap (fun l => tagged l.2 l.1) = stream.filter fun p => decide (p.1 ≠ sep) := by
  have hkeep : ∀ (t : τ) {line : List α}, sep ∉ line →
      (tagged t line).filter (fun p => decide (p.1 ≠ sep)) = tagged t line := by
    intro t line hline
    apply List.filter_eq_self.mpr
    rintro ⟨a, t'⟩ hp
    obtain ⟨b, hb, heq⟩ := List.mem_map.mp hp
    obtain ⟨rfl, rfl⟩ := Prod.mk.inj heq
    apply decide_eq_true
    rintro rfl
    exact hline hb
  induction h with
  | done => rfl
  | separator hline _ ih =>
    rw [List.flatMap_cons, ih, List.filter_append, hkeep _ hline, List.filter_cons_of_neg (by simp)]
  | change hline _ _ _ ih =>
    rw [List.flatMap_cons, ih, List.filter_append, hkeep _ hline]
  | atEnd hline _ =>
    rw [hkeep _ hline, List.flatMap_singleton]

/-! ## From the start of a line -/

/-- The lines of the rest of a stream, behind the start of a line. -/
def linesFrom [DecidableEq α] [DecidableEq τ] (sep : α) (t : τ) (line : List α) :
    List (α × τ) → List (List α × τ)
  | [] => if line = [] then [] else [(line, t)]
  | (a, t') :: rest =>
    if t' ≠ t ∧ line ≠ [] then
      (line, t) :: if a = sep then ([], t') :: linesFrom sep t' [] rest
        else linesFrom sep t' [a] rest
    else if a = sep then (line, t') :: linesFrom sep t' [] rest
    else linesFrom sep t' (line ++ [a]) rest

variable [DecidableEq α] [DecidableEq τ]

/-- No element of an unfinished line is left: its tag does not matter. -/
theorem linesFrom_nil_tag (t t' : τ) (stream : List (α × τ)) :
    linesFrom sep t [] stream = linesFrom sep t' [] stream := by
  cases stream with
  | nil => rfl
  | cons p rest => simp [linesFrom]

/-- An element of the same tag. -/
theorem linesFrom_same (t : τ) (line : List α) (a : α) (rest : List (α × τ)) :
    linesFrom sep t line ((a, t) :: rest) =
      if a = sep then (line, t) :: linesFrom sep t [] rest
      else linesFrom sep t (line ++ [a]) rest := by
  simp [linesFrom]

/-- The change of the tag ends a line. -/
theorem linesFrom_change (hne : t' ≠ t) (hline : line ≠ []) :
    linesFrom sep t line ((a, t') :: rest) =
      (line, t) :: linesFrom sep t' [] ((a, t') :: rest) := by
  simp [linesFrom, hne, hline]

/-- The lines from the start of a line on are the lines of the start and the rest. -/
theorem lines_linesFrom (hline : sep ∉ line) :
    Lines sep (tagged t line ++ stream) (linesFrom sep t line stream) := by
  induction stream generalizing t line with
  | nil =>
    rw [linesFrom, List.append_nil]
    split
    · rename_i hnil
      rw [hnil]
      exact Lines.done
    · rename_i hne
      exact Lines.atEnd hline hne
  | cons p rest ih =>
    obtain ⟨a, t'⟩ := p
    -- behind a start with the tag of the next element
    have hsame : ∀ {line : List α}, sep ∉ line →
        Lines sep (tagged t' line ++ (a, t') :: rest)
          (linesFrom sep t' line ((a, t') :: rest)) := by
      intro line hline
      rw [linesFrom_same]
      split
      · rename_i hsep
        rw [hsep]
        exact Lines.separator hline (by simpa using @ih t' [] (by simp))
      · rename_i hsep
        have := @ih t' (line ++ [a]) (by simp [hline, Ne.symm hsep])
        simpa using this
    by_cases hchange : t' ≠ t ∧ line ≠ []
    · obtain ⟨hne, hnil⟩ := hchange
      rw [linesFrom_change hne hnil]
      exact Lines.change hline hnil hne (by simpa using @hsame [] (by simp))
    · by_cases htag : t' = t
      · rw [← htag]
        exact hsame hline
      · obtain rfl : line = [] := by
          by_contra hnil
          exact hchange ⟨htag, hnil⟩
        rw [linesFrom_nil_tag t t']
        exact hsame hline

end

end OxidizedSystemd.Lib
