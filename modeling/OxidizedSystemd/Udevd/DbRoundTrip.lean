import OxidizedSystemd.Udevd.DeviceDb

/-!
# What is read back from the device database

`escape_db_value` writes a value so that its line stays one line, and no reader undoes it.

* `escapeDbValue_eq_iff`: the values that are written as they are.
* `readEntries_dbLines`: the entries of a file, where keys and tags keep to their lines.
* `roundTrips_iff`: which properties are read back.
-/

namespace OxidizedSystemd.Udevd

open Lib

/-! ## Values -/

/-- A character that is written as it is: visible ASCII, or NUL. -/
def PlainChar (c : Char) : Prop := c.toNat = 0 ∨ 0x20 < c.toNat ∧ c.toNat < 0x7F

def Plain (value : Text) : Prop := ∀ c ∈ value, PlainChar c

/-- What a character is written as. -/
def escapeChar (c : Char) : Text := (String.utf8EncodeChar c).flatMap escapeByte

theorem escapeDbValue_eq (value : Text) : escapeDbValue value = value.flatMap escapeChar := by
  rw [escapeDbValue, List.flatMap_assoc]
  rfl

theorem exists_byte_of_ascii {c : Char} (h : c.toNat < 0x80) :
    ∃ b : UInt8, b.toNat = c.toNat ∧ String.utf8EncodeChar c = [b] := by
  refine ⟨UInt8.ofNat c.toNat, ?_, utf8EncodeChar_ascii h⟩
  rw [toNat_ofNat]
  omega

theorem escapeChar_of_plain {c : Char} (h : PlainChar c) : escapeChar c = [c] := by
  have hlt : c.toNat < 0x80 := by
    unfold PlainChar at h
    omega
  obtain ⟨b, hb, hencode⟩ := exists_byte_of_ascii hlt
  have hnot : ¬ ((1 ≤ c.toNat ∧ c.toNat ≤ 0x20) ∨ c.toNat = 0x7F) := by
    unfold PlainChar at h
    omega
  rw [escapeChar, hencode, List.flatMap_singleton, escapeByte, hb, if_neg hnot, Char.ofNat_toNat]

theorem length_escapeByte_pos (b : UInt8) : 1 ≤ (escapeByte b).length := by
  unfold escapeByte
  split
  · simp
  · simp

/-- Every other character takes more than one. -/
theorem two_le_length_escapeChar {c : Char} (h : ¬ PlainChar c) : 2 ≤ (escapeChar c).length := by
  by_cases hlt : c.toNat < 0x80
  · obtain ⟨b, hb, hencode⟩ := exists_byte_of_ascii hlt
    have hescaped : (1 ≤ c.toNat ∧ c.toNat ≤ 0x20) ∨ c.toNat = 0x7F := by
      unfold PlainChar at h
      omega
    rw [escapeChar, hencode, List.flatMap_singleton, escapeByte, hb, if_pos hescaped]
    simp
  · have hsize : (String.utf8EncodeChar c).length ≠ 1 := by
      rw [String.length_utf8EncodeChar]
      intro hone
      have hle := UInt32.le_iff_toNat_le.mp (Char.utf8Size_eq_one_iff.mp hone)
      exact hlt (by change c.toNat ≤ 127 at hle; omega)
    match hencode : String.utf8EncodeChar c with
    | [] => exact absurd hencode String.utf8EncodeChar_ne_nil
    | [b] => exact absurd (by rw [hencode]; rfl) hsize
    | b :: b' :: bs =>
      have hb := length_escapeByte_pos b
      have hb' := length_escapeByte_pos b'
      rw [escapeChar, hencode, List.flatMap_cons, List.flatMap_cons, List.length_append,
        List.length_append]
      omega

theorem length_le_escapeDbValue (value : Text) : value.length ≤ (escapeDbValue value).length := by
  rw [escapeDbValue_eq]
  induction value with
  | nil => exact Nat.le_refl 0
  | cons c value ih =>
    have hc : 1 ≤ (escapeChar c).length := by
      by_cases hplain : PlainChar c
      · rw [escapeChar_of_plain hplain]
        exact Nat.le_refl 1
      · exact Nat.le_of_succ_le (two_le_length_escapeChar hplain)
    rw [List.flatMap_cons, List.length_append, List.length_cons]
    omega

/-- The values that are written as they are. -/
theorem escapeDbValue_eq_iff {value : Text} : escapeDbValue value = value ↔ Plain value := by
  induction value with
  | nil => simp [escapeDbValue, Plain]
  | cons c value ih =>
    have hle := length_le_escapeDbValue value
    rw [escapeDbValue_eq] at ih hle
    rw [escapeDbValue_eq, List.flatMap_cons, Plain, List.forall_mem_cons]
    by_cases hc : PlainChar c
    · rw [escapeChar_of_plain hc, List.singleton_append, List.cons_inj_right, ih]
      exact ⟨fun h => ⟨hc, h⟩, fun h => h.2⟩
    · constructor
      · intro h
        have hlen := congrArg List.length h
        have hc := two_le_length_escapeChar hc
        rw [List.length_append, List.length_cons] at hlen
        omega
      · intro h
        exact absurd h.1 hc

/-- What is written has no line break. -/
theorem not_mem_escapeDbValue {value : Text} {c : Char} (hc : c = '\n' ∨ c = '\r') :
    c ∉ escapeDbValue value := by
  intro h
  obtain ⟨b, -, hb⟩ := List.mem_flatMap.mp h
  unfold escapeByte at hb
  split at hb
  · rename_i hescaped
    rw [hexPad_eq (by decide) (by omega)] at hb
    have hdigit : ∀ d < 16, Nat.digitChar d ≠ '\n' ∧ Nat.digitChar d ≠ '\r' := by decide
    have hhigh := hdigit (b.toNat / 16 % 16) (Nat.mod_lt _ (by decide))
    have hlow := hdigit (b.toNat % 16) (Nat.mod_lt _ (by decide))
    simp only [hexDigits_two, List.mem_cons, List.not_mem_nil, or_false] at hb
    rcases hc with rfl | rfl <;> grind
  · rename_i hraw
    have hlt := b.toNat_lt
    have hnat : c.toNat = b.toNat := by
      rw [List.mem_singleton.mp hb, charOfNat_toNat hlt]
    rcases hc with rfl | rfl
    · exact hraw (Or.inl (by rw [← hnat]; decide))
    · exact hraw (Or.inl (by rw [← hnat]; decide))

/-! ## Lines -/

theorem readEntry_eq_some_iff {line key value : Text} :
    readEntry line = some (key, value) ↔ '=' ∉ key ∧ line = propertyLine key value := by
  rw [readEntry, Option.bind_eq_some_iff]
  constructor
  · rintro ⟨rest, hrest, hsplit⟩
    obtain ⟨hkey, rfl⟩ := splitOnce_singleton_eq_some_iff.mp hsplit
    exact ⟨hkey, stripPrefix_eq_some_iff.mp hrest⟩
  · rintro ⟨hkey, rfl⟩
    exact ⟨key ++ '=' :: value, stripPrefix_eq_some_iff.mpr rfl,
      splitOnce_singleton_eq_some_iff.mpr ⟨hkey, rfl⟩⟩

/-- What is read is on one line, and its key ends at the first `=`. -/
theorem mem_readEntries {content key value : Text} (h : (key, value) ∈ readEntries content) :
    '=' ∉ key ∧ '\n' ∉ key ∧ '\n' ∉ value := by
  obtain ⟨line, hline, hread⟩ := List.mem_filterMap.mp h
  obtain ⟨hkey, rfl⟩ := readEntry_eq_some_iff.mp hread
  have hnewline := newline_not_mem_of_mem_textLines hline
  simp only [propertyLine, List.mem_cons, List.mem_append, not_or] at hnewline
  exact ⟨hkey, hnewline.2.2.1, hnewline.2.2.2.2⟩

/-- The lines of a file, where all of them are one line. -/
theorem readEntries_unlines {lines : List Text} (h : ∀ line ∈ lines, '\n' ∉ line) :
    readEntries (unlines lines) = lines.filterMap (readEntry ∘ stripCr) := by
  rw [readEntries, textLines_unlines_of_not_mem h, List.filterMap_map]

/-- A line of another kind has no property. -/
theorem readEntry_stripCr_of_ne {c : Char} (hc : c ≠ 'E') (line : Text) :
    readEntry (stripCr (c :: line)) = none := by
  apply Option.eq_none_iff_forall_not_mem.mpr
  intro p hp
  obtain ⟨-, hline⟩ := readEntry_eq_some_iff.mp hp
  have hle : stripCr (c :: line) <+: c :: line := by
    rw [stripCr]
    split
    · exact List.dropLast_prefix _
    · exact List.prefix_refl _
  rw [hline] at hle
  exact hc (List.cons_prefix_cons.mp hle).1.symm

theorem readEntry_propertyLine {key value : Text} (hkey : '=' ∉ key)
    (hvalue : value.getLast? ≠ some '\r') :
    readEntry (stripCr (propertyLine key value)) = some (key, value) := by
  have hlast : (propertyLine key value).getLast? ≠ some '\r' := by
    have hsplit : propertyLine key value = ('E' :: ':' :: key ++ ['=']) ++ value := by
      simp [propertyLine]
    rw [hsplit, List.getLast?_append, List.getLast?_concat]
    cases hlast : value.getLast? with
    | none => simp
    | some c => simpa [hlast] using hvalue
  rw [stripCr_of_ne hlast, readEntry_eq_some_iff]
  exact ⟨hkey, rfl⟩

/-! ## Tags -/

theorem formatJoined_eq {tags : List Text} (h : tags ≠ []) :
    formatJoined tags = ':' :: tags.flatMap (· ++ [':']) := by
  rw [formatJoined, if_neg h]
  simp only [List.append_assoc]
  rw [List.foldl_append_eq_append, List.flatMap_def]
  rfl

theorem getLast?_formatJoined {tags : List Text} (h : tags ≠ []) :
    (formatJoined tags).getLast? = some ':' := by
  obtain ⟨front, last, rfl⟩ := (List.eq_nil_or_concat' tags).resolve_left h
  have hsplit : formatJoined (front ++ [last]) =
      (':' :: front.flatMap (· ++ [':']) ++ last) ++ [':'] := by
    rw [formatJoined_eq h]
    simp
  rw [hsplit, List.getLast?_concat]

theorem newline_mem_formatJoined {tags : List Text} :
    '\n' ∈ formatJoined tags ↔ ∃ tag ∈ tags, '\n' ∈ tag := by
  by_cases h : tags = []
  · simp [h, formatJoined]
  · rw [formatJoined_eq h]
    simp

theorem mem_pushTag {tags : List Text} {tag tag' : Text} :
    tag' ∈ pushTag tags tag ↔ tag' ∈ tags ∨ tag' = tag := by
  unfold pushTag
  split
  · rename_i hmem
    constructor
    · exact Or.inl
    · rintro (h | rfl)
      · exact h
      · exact List.contains_iff_mem.mp hmem
  · simp

theorem mem_foldl_pushTag {added tags : List Text} {tag : Text} :
    tag ∈ added.foldl pushTag tags ↔ tag ∈ tags ∨ tag ∈ added := by
  induction added generalizing tags with
  | nil => simp
  | cons first added ih => rw [List.foldl_cons, ih, mem_pushTag, List.mem_cons, or_assoc]

/-- Tags of an entry are on one line. -/
theorem newline_not_mem_previousTags {content tag : Text} (h : tag ∈ previousTags content) :
    '\n' ∉ tag := by
  rw [previousTags, mem_foldl_pushTag, List.mem_filter, List.mem_filterMap] at h
  obtain ⟨⟨line, hline, hstrip⟩, -⟩ := h.resolve_left List.not_mem_nil
  have hnewline := newline_not_mem_of_mem_textLines hline
  rw [stripPrefix_eq_some_iff.mp hstrip, List.mem_append, not_or] at hnewline
  exact hnewline.2

theorem mem_mergedTags {previous : Option Text} {tags : List Text} {tag : Text} :
    tag ∈ mergedTags previous tags ↔ tag ∈ (previous.map previousTags).getD [] ∨ tag ∈ tags :=
  mem_foldl_pushTag

theorem newline_mem_mergedTags {previous : Option Text} {tags : List Text} :
    (∃ tag ∈ mergedTags previous tags, '\n' ∈ tag) ↔ ∃ tag ∈ tags, '\n' ∈ tag := by
  constructor
  · rintro ⟨tag, htag, hnewline⟩
    rcases mem_mergedTags.mp htag with hprevious | htag
    · cases previous with
      | none => exact absurd hprevious List.not_mem_nil
      | some content => exact absurd hnewline (newline_not_mem_previousTags hprevious)
    · exact ⟨tag, htag, hnewline⟩
  · rintro ⟨tag, htag, hnewline⟩
    exact ⟨tag, mem_mergedTags.mpr (Or.inr htag), hnewline⟩

/-! ## Entries -/

variable {env : SortedMap Text Text}

/-- The properties of an entry, before they are escaped. -/
def storedProperties (previous : Option Text) (result : RuleResult) (visit : Visit env) :
    List (Text × Text) :=
  visit.stored ++ tagProperties (mergedTags previous result.tags) result.tags

/-- Keys and tags do not break their lines, and the values that count are plain. The properties for
    the tags replace what the environment has for them. -/
structure Storable (previous : Option Text) (result : RuleResult) (visit : Visit env) : Prop where
  key : ∀ p ∈ visit.stored, '=' ∉ p.1 ∧ '\n' ∉ p.1
  value : ∀ p ∈ visit.stored, Plain p.2 ∨
    p.1 ∈ (tagProperties (mergedTags previous result.tags) result.tags).map Prod.fst
  tag : ∀ tag ∈ result.tags, '\n' ∉ tag

theorem mem_tagProperties {merged tags : List Text} {p : Text × Text}
    (h : p ∈ tagProperties merged tags) :
    ('=' ∉ p.1 ∧ '\n' ∉ p.1) ∧ ∃ joined ≠ [], (joined = merged ∨ joined = tags) ∧
      p.2 = formatJoined joined := by
  rw [tagProperties, List.mem_append] at h
  rcases h with h | h
  · split at h
    · exact absurd h List.not_mem_nil
    · rename_i hne
      rw [List.mem_singleton.mp h]
      exact ⟨by simp, merged, hne, Or.inl rfl, rfl⟩
  · split at h
    · exact absurd h List.not_mem_nil
    · rename_i hne
      rw [List.mem_singleton.mp h]
      exact ⟨by simp, tags, hne, Or.inr rfl, rfl⟩

/-- Where the tags keep to their lines, so do the values that are made of them. -/
theorem tagProperties_value {previous : Option Text} {result : RuleResult}
    (htag : ∀ tag ∈ result.tags, '\n' ∉ tag) {p : Text × Text}
    (hp : p ∈ tagProperties (mergedTags previous result.tags) result.tags) :
    '\n' ∉ p.2 ∧ p.2.getLast? ≠ some '\r' := by
  obtain ⟨-, joined, hne, hcases, hvalue⟩ := mem_tagProperties hp
  rw [hvalue, getLast?_formatJoined hne, newline_mem_formatJoined]
  refine ⟨?_, by simp⟩
  intro hnewline
  have hin : ∃ tag ∈ result.tags, '\n' ∈ tag := by
    rcases hcases with rfl | rfl
    · exact newline_mem_mergedTags.mp hnewline
    · exact hnewline
  obtain ⟨tag, hmem, hin⟩ := hin
  exact htag tag hmem hin

theorem newline_not_mem_dbLines {previous : Option Text} {result : RuleResult} {visit : Visit env}
    (hkey : ∀ p ∈ visit.stored, '\n' ∉ p.1)
    (htag : ∀ tag ∈ result.tags, '\n' ∉ tag) :
    ∀ line ∈ dbLines result (mergedTags previous result.tags) visit, '\n' ∉ line := by
  intro line hline
  simp only [dbLines, List.mem_append, List.mem_map] at hline
  rcases hline with ((((⟨link, hlink, rfl⟩ | ⟨tag, hmem, rfl⟩) | ⟨tag, hmem, rfl⟩) | hline) |
    ⟨p, hp, rfl⟩) | ⟨p, hp, rfl⟩
  · simpa using result.symlink_newline link hlink
  · have hnot : '\n' ∉ tag := by
      intro hnewline
      obtain ⟨tag', hmem', hnewline'⟩ := newline_mem_mergedTags.mp ⟨tag, hmem, hnewline⟩
      exact htag tag' hmem' hnewline'
    simpa using hnot
  · simpa using htag tag hmem
  · split at hline
    · exact absurd hline List.not_mem_nil
    · rw [List.mem_singleton.mp hline]
      simp
  · have hnot : '\n' ∉ escapeDbValue p.2 := not_mem_escapeDbValue (Or.inl rfl)
    simpa [propertyLine] using ⟨hkey p hp, hnot⟩
  · simpa [propertyLine] using ⟨(mem_tagProperties hp).1.2, (tagProperties_value htag hp).1⟩

theorem filterMap_readEntry_of_ne {c : Char} (hc : c ≠ 'E') (texts : List Text) :
    (texts.map ([c, ':'] ++ ·)).filterMap (readEntry ∘ stripCr) = [] := by
  rw [List.filterMap_map, List.filterMap_eq_nil_iff]
  intro text _
  exact readEntry_stripCr_of_ne hc _

theorem filterMap_readEntry_propertyLine {ps : List (Text × Text)}
    (h : ∀ p ∈ ps, '=' ∉ p.1 ∧ p.2.getLast? ≠ some '\r') :
    (ps.map fun p => propertyLine p.1 p.2).filterMap (readEntry ∘ stripCr) = ps := by
  rw [List.filterMap_map]
  induction ps with
  | nil => rfl
  | cons p ps ih =>
    obtain ⟨hp, hps⟩ := List.forall_mem_cons.mp h
    have hread : ((readEntry ∘ stripCr) ∘ fun p => propertyLine p.1 p.2) p = some p :=
      readEntry_propertyLine hp.1 hp.2
    rw [List.filterMap_cons_some hread, ih hps]

/-- Where keys and tags keep to their lines, what is read is what is stored, with its values
    escaped. -/
theorem readEntries_dbLines {previous : Option Text} {result : RuleResult} {visit : Visit env}
    (hkey : ∀ p ∈ visit.stored, '=' ∉ p.1 ∧ '\n' ∉ p.1)
    (htag : ∀ tag ∈ result.tags, '\n' ∉ tag) :
    readEntries (unlines (dbLines result (mergedTags previous result.tags) visit)) =
      visit.stored.map (fun p => (p.1, escapeDbValue p.2)) ++
        tagProperties (mergedTags previous result.tags) result.tags := by
  have hlinks : (result.symlinks.map ("S:".toList ++ ·)).filterMap (readEntry ∘ stripCr) = [] :=
    filterMap_readEntry_of_ne (by decide) result.symlinks
  have hmerged : ((mergedTags previous result.tags).map ("G:".toList ++ ·)).filterMap
      (readEntry ∘ stripCr) = [] := filterMap_readEntry_of_ne (by decide) _
  have hcurrent : (result.tags.map ("Q:".toList ++ ·)).filterMap (readEntry ∘ stripCr) = [] :=
    filterMap_readEntry_of_ne (by decide) result.tags
  have hpriority : (if result.symlinks = [] then [] else ["L:0".toList]).filterMap
      (readEntry ∘ stripCr) = [] := by
    split
    · rfl
    · rfl
  have hstored : visit.stored.map (fun p => propertyLine p.1 (escapeDbValue p.2)) =
      (visit.stored.map fun p => (p.1, escapeDbValue p.2)).map fun p => propertyLine p.1 p.2 := by
    rw [List.map_map]
    rfl
  have hescaped : ∀ p ∈ visit.stored.map (fun p => (p.1, escapeDbValue p.2)),
      '=' ∉ p.1 ∧ p.2.getLast? ≠ some '\r' := by
    intro p hp
    obtain ⟨q, hq, rfl⟩ := List.mem_map.mp hp
    exact ⟨(hkey q hq).1, fun hlast =>
      not_mem_escapeDbValue (Or.inr rfl) (List.mem_of_getLast? hlast)⟩
  have htags : ∀ p ∈ tagProperties (mergedTags previous result.tags) result.tags,
      '=' ∉ p.1 ∧ p.2.getLast? ≠ some '\r' :=
    fun p hp => ⟨(mem_tagProperties hp).1.1, (tagProperties_value htag hp).2⟩
  rw [readEntries_unlines (newline_not_mem_dbLines (fun p hp => (hkey p hp).2) htag), dbLines,
    hstored]
  simp only [List.filterMap_append]
  rw [hlinks, hmerged, hcurrent, hpriority, filterMap_readEntry_propertyLine hescaped,
    filterMap_readEntry_propertyLine htags]
  rfl

/-! ## Round trips -/

/-- The value that is left at a key of the environment is the last one that is entered. -/
theorem get?_enter (env : SortedMap Text Text) (entries : List (Text × Text)) (key : Text) :
    (enter env entries).get? key = (lastAt entries key).or (env.get? key) :=
  get?_foldl_insert entries env key

/-- The entries that are read from the file that has been written. -/
def readBack (previous : Option Text) (result : RuleResult) (visit : Visit env) :
    List (Text × Text) :=
  readEntries (unlines (dbLines result (mergedTags previous result.tags) visit))

variable {previous : Option Text} {result : RuleResult} {visit : Visit env}

theorem lastAt_readBack (h : Storable previous result visit) (key : Text) :
    lastAt (readBack previous result visit) key =
      lastAt (storedProperties previous result visit) key := by
  rw [readBack, readEntries_dbLines h.key h.tag, storedProperties, lastAt_append, lastAt_append]
  by_cases hkey : key ∈ (tagProperties (mergedTags previous result.tags) result.tags).map Prod.fst
  · obtain ⟨p, hp, rfl⟩ := List.mem_map.mp hkey
    obtain ⟨value, hvalue⟩ := Option.ne_none_iff_exists'.mp fun hnone =>
      lastAt_eq_none_iff.mp hnone p.2 hp
    rw [hvalue, Option.some_or, Option.some_or]
  · have hplain : ∀ value ∈ valuesAt visit.stored key, escapeDbValue value = value := by
      intro value hvalue
      apply escapeDbValue_eq_iff.mpr
      exact (h.value (key, value) (mem_valuesAt.mp hvalue)).resolve_right hkey
    have hsame : lastAt (visit.stored.map fun p => (p.1, escapeDbValue p.2)) key =
        lastAt visit.stored key := by
      rw [lastAt, valuesAt_map, List.map_congr_left hplain, List.map_id']
      rfl
    rw [hsame]

theorem eq_of_mem_stored {p q : Text × Text} (hp : p ∈ visit.stored) (hq : q ∈ visit.stored)
    (h : p.1 = q.1) : p.2 = q.2 := by
  have hp := visit.perm.mem_iff.mp (List.mem_of_mem_filter hp)
  have hq := visit.perm.mem_iff.mp (List.mem_of_mem_filter hq)
  refine SortedMap.eq_of_mem (k := p.1) hp ?_
  rw [h]
  exact hq

/-- Where what is read agrees with what is stored, keys and tags keep to their lines and the values
    are plain. -/
theorem Storable.of_agree
    (hlast : ∀ key ≠ "IFINDEX".toList, lastAt (readBack previous result visit) key =
      lastAt (storedProperties previous result visit) key)
    (hvalue : ∀ key value value', lastAt (readBack previous result visit) key = some value →
      lastAt (storedProperties previous result visit) key = some value' → value = value') :
    Storable previous result visit := by
  have hkey : ∀ p ∈ visit.stored, '=' ∉ p.1 ∧ '\n' ∉ p.1 := by
    intro p hp
    have hmem : p ∈ storedProperties previous result visit := List.mem_append_left _ hp
    by_cases hifindex : p.1 = "IFINDEX".toList
    · rw [hifindex]
      simp
    · obtain ⟨value, hread⟩ := Option.ne_none_iff_exists'.mp fun hnone =>
        lastAt_eq_none_iff.mp ((hlast p.1 hifindex).symm.trans hnone) p.2 hmem
      have hread := mem_readEntries (mem_of_lastAt hread)
      exact ⟨hread.1, hread.2.1⟩
  have htag : ∀ tag ∈ result.tags, '\n' ∉ tag := by
    intro tag htag hnewline
    have hmerged : mergedTags previous result.tags ≠ [] :=
      List.ne_nil_of_mem (mem_mergedTags.mpr (Or.inr htag))
    have hjoined : '\n' ∈ formatJoined (mergedTags previous result.tags) :=
      newline_mem_formatJoined.mpr (newline_mem_mergedTags.mpr ⟨tag, htag, hnewline⟩)
    have hstored : lastAt (storedProperties previous result visit) "TAGS".toList =
        some (formatJoined (mergedTags previous result.tags)) := by
      rw [storedProperties, lastAt_append, tagProperties, if_neg hmerged,
        if_neg (List.ne_nil_of_mem htag)]
      rfl
    rw [← hlast _ (by decide)] at hstored
    exact (mem_readEntries (mem_of_lastAt hstored)).2.2 hjoined
  refine ⟨hkey, fun p hp => ?_, htag⟩
  apply or_iff_not_imp_right.mpr
  intro hnot
  have hrest : lastAt (tagProperties (mergedTags previous result.tags) result.tags) p.1 = none :=
    lastAt_eq_none_iff.mpr fun value hmem => hnot (List.mem_map.mpr ⟨_, hmem, rfl⟩)
  obtain ⟨value, hstored⟩ := Option.ne_none_iff_exists'.mp fun hnone =>
    lastAt_eq_none_iff.mp hnone p.2 hp
  obtain rfl : value = p.2 := eq_of_mem_stored (mem_of_lastAt hstored) hp rfl
  apply escapeDbValue_eq_iff.mp
  apply hvalue p.1
  · rw [readBack, readEntries_dbLines hkey htag, lastAt_append, hrest, Option.none_or, lastAt,
      valuesAt_map, List.getLast?_map]
    exact congrArg (Option.map escapeDbValue) hstored
  · rw [storedProperties, lastAt_append, hrest, Option.none_or]
    exact hstored

/-- A network interface has an index and no device number. -/
def IsInterface (event : UEvent) : Prop :=
  event.subsystem = "net".toList ∧ ¬ (event.major ≠ [] ∧ event.minor ≠ []) ∧
    (event.env.get? "IFINDEX".toList).getD [] ≠ []

section

variable (db : DeviceDb) (event : UEvent) (result : RuleResult) (visit : Visit event.env)

/-- `IMPORT{db}` of a later event of the device gives it what has been stored. -/
def ImportDbExact : Prop := ∀ later : UEvent, deviceId later = deviceId event →
  importDb (writeDeviceDb db event result visit) later =
    enter later.env (storedProperties (db.file (deviceId event)) result visit)

/-- `ImportProperty=`, which is for interfaces, reads what has been stored. -/
def ImportPropertyExact : Prop := ∀ later : UEvent, IsInterface later →
  deviceId later = deviceId event →
  readExistingUdevDbEnv (writeDeviceDb db event result visit) later =
    some (enter .empty (storedProperties (db.file (deviceId event)) result visit))

/-- `IMPORT{parent}` gives the children of the device what has been stored. -/
def ImportParentExact : Prop := ∀ child : UEvent,
  parentDevpath child.devpath = some event.devpath →
  importParent (writeDeviceDb db event result visit) child =
    enter child.env (storedProperties (db.file (deviceId event)) result visit)

/-- Every reader gets what has been stored. -/
structure RoundTrips : Prop where
  importDb : ImportDbExact db event result visit
  importProperty : ImportPropertyExact db event result visit
  importParent : ImportParentExact db event result visit

variable {db event result visit}

theorem file_writeDeviceDb : (writeDeviceDb db event result visit).file (deviceId event) =
    some (unlines (dbLines result (mergedTags (db.file (deviceId event)) result.tags) visit)) :=
  Function.update_self ..

theorem importDb_writeDeviceDb {later : UEvent} (h : deviceId later = deviceId event) :
    importDb (writeDeviceDb db event result visit) later =
      enter later.env (readBack (db.file (deviceId event)) result visit) := by
  rw [importDb, h, file_writeDeviceDb]
  rfl

/-- The readers find the file of an interface under the same name. -/
theorem udevDbNameForEvent_of_isInterface (h : IsInterface event) :
    udevDbNameForEvent event = some (deviceId event) := by
  obtain ⟨hnet, hnumber, hifindex⟩ := h
  rw [deviceId, if_neg hnumber, if_pos ⟨hnet, hifindex⟩, udevDbNameForEvent]
  cases hget : event.env.get? "IFINDEX".toList with
  | none =>
    rw [hget] at hifindex
    exact absurd rfl hifindex
  | some ifindex => exact if_pos hnet

theorem readExistingUdevDbEnv_writeDeviceDb {later : UEvent} (hinterface : IsInterface later)
    (h : deviceId later = deviceId event) :
    readExistingUdevDbEnv (writeDeviceDb db event result visit) later =
      some (enter .empty (readBack (db.file (deviceId event)) result visit)) := by
  rw [readExistingUdevDbEnv, udevDbNameForEvent_of_isInterface hinterface, h, Option.bind_some,
    file_writeDeviceDb]
  rfl

theorem enter_congr {entries entries' : List (Text × Text)}
    (h : ∀ key, lastAt entries key = lastAt entries' key) (env : SortedMap Text Text) :
    enter env entries = enter env entries' := by
  apply SortedMap.ext_get?
  intro key
  rw [get?_enter, get?_enter, h]

/-- The device stays the same without a property other than the index. -/
theorem deviceId_erase {key : Text} (h : key ≠ "IFINDEX".toList) :
    deviceId { event with env := event.env.erase key } = deviceId event := by
  unfold deviceId
  simp only [SortedMap.get?_erase, if_neg (Ne.symm h)]

theorem importDbExact_iff : ImportDbExact db event result visit ↔
    Storable (db.file (deviceId event)) result visit := by
  constructor
  · intro h
    have hget : ∀ later : UEvent, deviceId later = deviceId event → ∀ key,
        (lastAt (readBack (db.file (deviceId event)) result visit) key).or (later.env.get? key) =
          (lastAt (storedProperties (db.file (deviceId event)) result visit) key).or
            (later.env.get? key) := by
      intro later hlater key
      have := h later hlater
      rw [importDb_writeDeviceDb hlater] at this
      rw [← get?_enter, this, get?_enter]
    apply Storable.of_agree
    · intro key hkey
      have := hget _ (deviceId_erase hkey) key
      rwa [SortedMap.get?_erase, if_pos rfl, Option.or_none, Option.or_none] at this
    · intro key value value' hread hstored
      have := hget event rfl key
      rw [hread, hstored] at this
      exact Option.some.inj this
  · intro h later hlater
    rw [importDb_writeDeviceDb hlater]
    exact enter_congr (lastAt_readBack h) later.env

theorem importPropertyExact_of_storable (h : Storable (db.file (deviceId event)) result visit) :
    ImportPropertyExact db event result visit := by
  intro later hinterface hlater
  rw [readExistingUdevDbEnv_writeDeviceDb hinterface hlater]
  exact congrArg some (enter_congr (lastAt_readBack h) .empty)

theorem importPropertyExact_iff (hinterface : IsInterface event) :
    ImportPropertyExact db event result visit ↔
      Storable (db.file (deviceId event)) result visit := by
  constructor
  · intro h
    have hget : ∀ key, lastAt (readBack (db.file (deviceId event)) result visit) key =
        lastAt (storedProperties (db.file (deviceId event)) result visit) key := by
      intro key
      have := h event hinterface rfl
      rw [readExistingUdevDbEnv_writeDeviceDb hinterface rfl] at this
      have := congrArg (SortedMap.get? · key) (Option.some.inj this)
      rwa [get?_enter, get?_enter, SortedMap.get?_empty, Option.or_none, Option.or_none] at this
    apply Storable.of_agree fun key _ => hget key
    intro key value value' hread hstored
    rw [hget, hstored] at hread
    exact (Option.some.inj hread).symm
  · exact importPropertyExact_of_storable

/-- What `IMPORT{parent}` looks for is no device. -/
theorem deviceId_ne_escapeSlashes (event : UEvent) (path : Text) :
    deviceId event ≠ escapeSlashes ('/' :: path) := by
  have hhead : escapeSlashes ('/' :: path) = '\\' :: ("x2f".toList ++ escapeSlashes path) := rfl
  rw [hhead, deviceId]
  split
  · split
    · simp
    · simp
  · split
    · simp
    · split
      · simp
      · simp

theorem importParent_eq (db : DeviceDb) (child : UEvent) : importParent db child = child.env := by
  have hnone : ((parentDevpath child.devpath).bind fun devpath =>
      db.file (escapeSlashes devpath)) = none := by
    apply Option.eq_none_iff_forall_not_mem.mpr
    intro content hcontent
    obtain ⟨devpath, hdevpath, hfile⟩ := Option.bind_eq_some_iff.mp hcontent
    obtain ⟨event, hname⟩ := db.named _ (Option.isSome_iff_exists.mpr ⟨content, hfile⟩)
    unfold parentDevpath at hdevpath
    split at hdevpath
    · cases hdevpath
    · rw [← Option.some.inj hdevpath] at hname
      exact deviceId_ne_escapeSlashes event _ hname.symm
  rw [importParent, hnone]

theorem enter_empty_eq_iff {entries : List (Text × Text)} :
    enter .empty entries = .empty ↔ entries = [] := by
  constructor
  · intro h
    apply List.eq_nil_iff_forall_not_mem.mpr
    intro p hp
    have hget := get?_enter .empty entries p.1
    rw [h, SortedMap.get?_empty, Option.or_none] at hget
    exact lastAt_eq_none_iff.mp hget.symm p.2 hp
  · rintro rfl
    rfl

/-- `IMPORT{parent}` finds nothing. -/
theorem importParentExact_iff : ImportParentExact db event result visit ↔
    storedProperties (db.file (deviceId event)) result visit = [] ∨
      ∀ devpath, parentDevpath devpath ≠ some event.devpath := by
  constructor
  · intro h
    apply or_iff_not_imp_right.mpr
    intro hchild
    obtain ⟨devpath, hdevpath⟩ := not_forall_not.mp hchild
    have := h { event with devpath, env := .empty } hdevpath
    rw [importParent_eq] at this
    exact enter_empty_eq_iff.mp this.symm
  · intro h child hchild
    rcases h with h | h
    · rw [importParent_eq, h]
      rfl
    · exact absurd hchild (h child.devpath)

/-- What has been stored is read back if it is storable, and by a child only if there is nothing. -/
theorem roundTrips_iff (db : DeviceDb) (event : UEvent) (result : RuleResult)
    (visit : Visit event.env) :
    (RoundTrips db event result visit ↔ Storable (db.file (deviceId event)) result visit ∧
      (storedProperties (db.file (deviceId event)) result visit = [] ∨
        ∀ devpath, parentDevpath devpath ≠ some event.devpath)) ∧
    (ImportDbExact db event result visit ↔
      Storable (db.file (deviceId event)) result visit) ∧
    (IsInterface event → (ImportPropertyExact db event result visit ↔
      Storable (db.file (deviceId event)) result visit)) := by
  refine ⟨⟨fun h => ?_, fun h => ?_⟩, importDbExact_iff, importPropertyExact_iff⟩
  · exact ⟨importDbExact_iff.mp h.importDb, importParentExact_iff.mp h.importParent⟩
  · exact ⟨importDbExact_iff.mpr h.1, importPropertyExact_of_storable h.1,
      importParentExact_iff.mpr h.2⟩

end

/-- A disk whose model name has a blank. -/
def blankEvent : UEvent where
  action := "add".toList
  devpath := "/devices/sda".toList
  subsystem := "block".toList
  devname := "sda".toList
  major := "8".toList
  minor := "0".toList
  env := SortedMap.empty.insert "ID_MODEL".toList "a b".toList

theorem blank_not_read_back :
    ¬ RoundTrips ⟨fun _ => none, fun _ h => Bool.noConfusion h⟩ blankEvent
      ⟨[], [], [], fun _ h => absurd h List.not_mem_nil⟩
      ⟨blankEvent.env.pairs, List.Perm.refl _⟩ := by
  intro h
  have hget := congrArg (SortedMap.get? · "ID_MODEL".toList) (h.importDb blankEvent rfl)
  revert hget
  decide

end OxidizedSystemd.Udevd
