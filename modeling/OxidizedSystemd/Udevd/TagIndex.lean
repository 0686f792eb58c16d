import OxidizedSystemd.Lib.Run
import OxidizedSystemd.Udevd.DbRoundTrip
import OxidizedSystemd.Udevd.Symlinks

/-!
# The tag index

Model of what `process_event` does to `/run/udev/tags` and to the database (`udevd/src/lib.rs`,
lines 4539–4695 and 5852–5903). Tag files are named by an id that `write_device_tags` and
`remove_device_tags` make for themselves: it is the name of the entry, but for interfaces and for
devices without a subsystem.

* `mem_previousTags_dbLines`: the sticky tags that are read from an entry.
* `Tracks.write`, `Tracks.remove`: what an event preserves.
* `indexAgrees_of_meets`: when the index agrees with the database.
-/

namespace OxidizedSystemd.Udevd

open Lib

/-- The `dev_id` of `write_device_tags` and `remove_device_tags` (lines 4656–4664 and 4677–4685). -/
def tagDeviceId (event : UEvent) : Text :=
  if event.major ≠ [] ∧ event.minor ≠ [] then
    (if event.subsystem = "block".toList then 'b' else 'c') :: (event.major ++ ':' :: event.minor)
  else '+' :: (event.subsystem ++ ':' :: baseName event.devpath)

/-- `Path::with_extension("tmp")`, for a file name that does not begin with a dot. -/
def temporaryName (name : Text) : Text :=
  (match rsplitOnce '.' name with
    | some (stem, _) => stem
    | none => name) ++ ".tmp".toList

/-- The database, and whether there is a file for a tag and an id. -/
structure TagStore where
  db : DeviceDb
  tagFile : Text → Text → Bool

/-- `write_device_tags`. -/
def writeDeviceTags (tagFile : Text → Text → Bool) (event : UEvent) (tags : List Text) :
    Text → Text → Bool :=
  fun tag id => (id = tagDeviceId event && tags.contains tag) || tagFile tag id

/-- A tag whose directory is listed in `/run/udev/tags`. -/
def isListed (tag : Text) : Bool := '/' ∉ tag && tag ≠ ['.'] && tag ≠ ['.', '.']

/-- `remove_device_tags`, which looks into the directories that are listed. -/
def removeDeviceTags (tagFile : Text → Text → Bool) (event : UEvent) : Text → Text → Bool :=
  fun tag id => !(id = tagDeviceId event && isListed tag) && tagFile tag id

/-- An entry that is renamed is not there any more. -/
def dropTemporary (db : DeviceDb) (id : Text) : DeviceDb where
  file := if temporaryName id = id then db.file else Function.update db.file (temporaryName id) none
  named := by
    intro name h
    split at h
    · exact db.named name h
    · by_cases hname : name = temporaryName id
      · rw [hname, Function.update_self] at h
        cases h
      · rw [Function.update_of_ne hname] at h
        exact db.named name h

/-- `write_device_db`, with the tag files. A name with a slash is a file in a directory that does
    not exist, and nothing is written. -/
def TagStore.write (store : TagStore) (event : UEvent) (result : RuleResult)
    (visit : Visit event.env) : TagStore :=
  let merged := mergedTags (store.db.file (deviceId event)) result.tags
  if '/' ∈ deviceId event then store
  else
    { db := dropTemporary (writeDeviceDb store.db event result visit) (deviceId event)
      tagFile := if merged = [] then store.tagFile else writeDeviceTags store.tagFile event merged }

/-- `remove_device_tags` and `remove_device_db`. -/
def TagStore.remove (store : TagStore) (event : UEvent) : TagStore where
  db := removeDeviceDb store.db event
  tagFile := removeDeviceTags store.tagFile event

/-- At boot there are no entries and no tag files. -/
def TagStore.new : TagStore where
  db := ⟨fun _ => none, fun _ h => (Bool.false_ne_true h).elim⟩
  tagFile _ _ := false

/-! ## Events -/

/-- The mark of a device whose programs will run (lines 5853–5857). -/
def markProcessing (event : UEvent) : UEvent :=
  { event with env := event.env.insert "ID_PROCESSING".toList "1".toList }

/-- The event without its mark, in the environment that the programs leave (lines 5872–5874). -/
def unmarkProcessing (event : UEvent) (left : SortedMap Text Text) : UEvent :=
  { event with env := left.erase "ID_PROCESSING".toList }

/-- The entries that are written for an event: one, or one before and one behind the programs. -/
inductive Writes (event : UEvent)
  | once (visit : Visit event.env)
  | twice (left : SortedMap Text Text) (before : Visit (markProcessing event).env)
      (behind : Visit (unmarkProcessing event left).env)

/-- An event behind the rules, with their result. The rules make no tag without a text. -/
structure RuledEvent where
  event : UEvent
  result : RuleResult
  writes : Writes event
  tag_ne_nil : ∀ tag ∈ result.tags, tag ≠ []

/-- `process_event` behind the rules. -/
def TagStore.processEvent (store : TagStore) (p : RuledEvent) : TagStore :=
  if settingActions.contains p.event.action then
    match p.writes with
    | .once visit => store.write p.event p.result visit
    | .twice left before behind =>
      (store.write (markProcessing p.event) p.result before).write
        (unmarkProcessing p.event left) p.result behind
  else if removingActions.contains p.event.action then store.remove p.event
  else store

def stepTags (store : TagStore) (p : RuledEvent) : Option TagStore := some (store.processEvent p)

/-- A tag file is there exactly if the entry of its id is there and has the sticky tag. -/
def IndexAgrees (store : TagStore) : Prop :=
  ∀ tag id, store.tagFile tag id = true ↔
    ∃ content, store.db.file id = some content ∧ tag ∈ previousTags content

/-! ## Conditions -/

/-- A tag that is the name of a directory, and that a line gives back. -/
structure PlainTag (tag : Text) : Prop where
  newline : '\n' ∉ tag
  return_ : tag.getLast? ≠ some '\r'
  listed : isListed tag = true

/-- An entry that is written keeps the index: the ids are the same unless there is no tag to write,
    the tags are plain, no property name makes a line for a tag, and the temporary file is not the
    entry of another device with tags. -/
structure KeepsIndex (store : TagStore) (event : UEvent) (result : RuleResult)
    (visit : Visit event.env) : Prop where
  id : mergedTags (store.db.file (deviceId event)) result.tags ≠ [] →
    tagDeviceId event = deviceId event
  tag : ∀ tag ∈ result.tags, PlainTag tag
  key : ∀ p ∈ visit.stored, ¬ "\nG:".toList <:+: p.1
  temporary : temporaryName (deviceId event) ≠ deviceId event →
    ∀ content, store.db.file (temporaryName (deviceId event)) = some content →
      previousTags content = []

/-- An event keeps the index. When a device is removed, the ids are the same unless no entry under
    either of them has tags. -/
def TagStore.Keeps (store : TagStore) (p : RuledEvent) : Prop :=
  if settingActions.contains p.event.action then
    match p.writes with
    | .once visit => KeepsIndex store p.event p.result visit
    | .twice left before behind =>
      KeepsIndex store (markProcessing p.event) p.result before ∧
        KeepsIndex (store.write (markProcessing p.event) p.result before)
          (unmarkProcessing p.event left) p.result behind
  else if removingActions.contains p.event.action then
    tagDeviceId p.event = deviceId p.event ∨
      ∀ content, (store.db.file (deviceId p.event) = some content ∨
        store.db.file (tagDeviceId p.event) = some content) → previousTags content = []
  else True

/-! ## The sticky tags of an entry -/

theorem mem_textLines_unlines {lines : List Text} {line : Text} :
    line ∈ textLines (unlines lines) ↔
      ∃ l ∈ lines, ∃ piece ∈ l.splitOn '\n', stripCr piece = line := by
  rw [textLines_unlines, List.mem_flatMap]
  simp only [List.mem_map]

theorem mem_previousTags {content tag : Text} :
    tag ∈ previousTags content ↔ tag ≠ [] ∧ "G:".toList ++ tag ∈ textLines content := by
  rw [previousTags, mem_foldl_pushTag, or_iff_right List.not_mem_nil, List.mem_filter,
    List.mem_filterMap, and_comm, decide_eq_true_iff]
  refine and_congr_right fun _ => ?_
  constructor
  · rintro ⟨line, hline, hstrip⟩
    rwa [← stripPrefix_eq_some_iff.mp hstrip]
  · intro hline
    exact ⟨_, hline, stripPrefix_eq_some_iff.mpr rfl⟩

theorem stripCr_isPrefix (line : Text) : stripCr line <+: line := by
  rw [stripCr]
  split
  · exact List.dropLast_prefix line
  · exact List.prefix_refl line

/-- No piece of a line is a line for a tag. -/
theorem not_announced {c : Char} {line tag : Text} (hc : c ≠ 'G')
    (h : ¬ "\nG:".toList <:+: c :: line) :
    ∀ piece ∈ (c :: line).splitOn '\n', stripCr piece ≠ "G:".toList ++ tag := by
  intro piece hpiece heq
  have hstarts : "G:".toList <+: piece := by
    refine List.IsPrefix.trans ?_ (stripCr_isPrefix piece)
    rw [heq]
    exact List.prefix_append _ _
  rcases prefix_or_infix_of_mem_splitOn hpiece with hfirst | hbehind
  · obtain ⟨rest, hrest⟩ := hstarts.trans hfirst
    exact hc (List.cons.inj hrest).1.symm
  · obtain ⟨rest, rfl⟩ := hstarts
    obtain ⟨front, back, hsplit⟩ := hbehind
    exact h ⟨front, rest ++ back, by rw [← hsplit]; simp⟩

theorem not_infix_of_newline {line : Text} (h : '\n' ∉ line) : ¬ "\nG:".toList <:+: line :=
  fun hpart => h (hpart.subset (by decide))

theorem not_infix_propertyLine {key value : Text} (hkey : ¬ "\nG:".toList <:+: key)
    (hvalue : '\n' ∉ value) : ¬ "\nG:".toList <:+: propertyLine key value := by
  rintro ⟨front, back, hsplit⟩
  have hsplit : front ++ ('\n' :: 'G' :: ':' :: back) = ('E' :: ':' :: key) ++ '=' :: value := by
    have hline : propertyLine key value = ('E' :: ':' :: key) ++ '=' :: value := by
      simp [propertyLine]
    rw [← hline, ← hsplit]
    simp
  rcases List.append_eq_append_iff.mp hsplit with ⟨middle, hkeyline, hrest⟩ | ⟨middle, -, hrest⟩
  · -- the line feed is in the key, and so is what is behind it, since it has no `=`
    rcases middle with _ | ⟨_, _ | ⟨_, _ | ⟨_, middle⟩⟩⟩
    · cases hrest
    · cases hrest
    · cases hrest
    · cases hrest
      rcases front with _ | ⟨_, _ | ⟨_, front⟩⟩
      · cases hkeyline
      · cases hkeyline
      · cases hkeyline
        exact hkey ⟨front, middle, by simp⟩
  · have hmem : '\n' ∈ '=' :: value := by
      rw [hrest]
      exact List.mem_append_right _ List.mem_cons_self
    rcases List.mem_cons.mp hmem with h | h
    · cases h
    · exact hvalue h

variable {env : SortedMap Text Text}

theorem PlainTag.pieces {tag : Text} (h : PlainTag tag) :
    ("G:".toList ++ tag).splitOn '\n' = ["G:".toList ++ tag] := by
  apply List.splitOn_eq_singleton
  rw [List.mem_append, not_or]
  exact ⟨by decide, h.newline⟩

theorem PlainTag.stripCr {tag : Text} (h : PlainTag tag) :
    stripCr ("G:".toList ++ tag) = "G:".toList ++ tag := by
  apply stripCr_of_ne
  rw [List.getLast?_append]
  cases hlast : tag.getLast? with
  | none => decide
  | some c =>
    rw [Option.some_or, ← hlast]
    exact h.return_

/-- The sticky tags that are read from an entry are those that are written. -/
theorem mem_previousTags_dbLines {result : RuleResult} {merged : List Text} {visit : Visit env}
    {tag : Text} (hne : ∀ tag ∈ merged, tag ≠ []) (hmerged : ∀ tag ∈ merged, PlainTag tag)
    (hsub : ∀ tag ∈ result.tags, tag ∈ merged)
    (hkey : ∀ p ∈ visit.stored, ¬ "\nG:".toList <:+: p.1) :
    tag ∈ previousTags (unlines (dbLines result merged visit)) ↔ tag ∈ merged := by
  rw [mem_previousTags, mem_textLines_unlines]
  constructor
  · rintro ⟨-, line, hline, piece, hpiece, heq⟩
    simp only [dbLines, List.mem_append, List.mem_map] at hline
    rcases hline with ((((⟨link, hlink, rfl⟩ | ⟨t, ht, rfl⟩) | ⟨t, ht, rfl⟩) | hline) |
      ⟨p, hp, rfl⟩) | ⟨p, hp, rfl⟩
    · have hnewline : '\n' ∉ "S:".toList ++ link := by
        rw [List.mem_append, not_or]
        exact ⟨by decide, result.symlink_newline link hlink⟩
      exact absurd heq (not_announced (by decide) (not_infix_of_newline hnewline) piece hpiece)
    · rw [(hmerged t ht).pieces, List.mem_singleton] at hpiece
      rw [hpiece, (hmerged t ht).stripCr] at heq
      rwa [← List.append_cancel_left heq]
    · have hnewline : '\n' ∉ "Q:".toList ++ t := by
        rw [List.mem_append, not_or]
        exact ⟨by decide, (hmerged t (hsub t ht)).newline⟩
      exact absurd heq (not_announced (by decide) (not_infix_of_newline hnewline) piece hpiece)
    · split at hline
      · exact absurd hline List.not_mem_nil
      · rw [List.mem_singleton] at hline
        subst hline
        exact absurd heq (not_announced (by decide) (not_infix_of_newline (by decide)) piece hpiece)
    · have hvalue : '\n' ∉ escapeDbValue p.2 := not_mem_escapeDbValue (.inl rfl)
      exact absurd heq (not_announced (by decide) (not_infix_propertyLine (hkey p hp) hvalue)
        piece hpiece)
    · obtain ⟨⟨-, hname⟩, joined, -, hjoined, hvalue⟩ := mem_tagProperties hp
      have hnewline : '\n' ∉ p.2 := by
        rw [hvalue, newline_mem_formatJoined]
        rintro ⟨t, ht, hmem⟩
        rcases hjoined with rfl | rfl
        · exact (hmerged t ht).newline hmem
        · exact (hmerged t (hsub t ht)).newline hmem
      exact absurd heq (not_announced (by decide)
        (not_infix_propertyLine (not_infix_of_newline hname) hnewline) piece hpiece)
  · intro htag
    refine ⟨hne tag htag, "G:".toList ++ tag, ?_, "G:".toList ++ tag, ?_,
      (hmerged tag htag).stripCr⟩
    · simp only [dbLines, List.mem_append, List.mem_map]
      exact .inl (.inl (.inl (.inl (.inr ⟨tag, htag, rfl⟩))))
    · rw [(hmerged tag htag).pieces]
      exact List.mem_singleton.mpr rfl

/-! ## What an event preserves -/

/-- The index agrees with the database, and the tags in it are plain. -/
structure TagStore.Tracks (store : TagStore) : Prop where
  agrees : IndexAgrees store
  plain : ∀ id content, store.db.file id = some content → ∀ tag ∈ previousTags content, PlainTag tag

variable {store : TagStore} {event : UEvent} {result : RuleResult} {visit : Visit event.env}

theorem TagStore.Tracks.plain_merged (h : store.Tracks) (htag : ∀ tag ∈ result.tags, PlainTag tag)
    (id : Text) : ∀ tag ∈ mergedTags (store.db.file id) result.tags, PlainTag tag := by
  intro tag hmem
  rcases mem_mergedTags.mp hmem with hprevious | hnew
  · cases hfile : store.db.file id with
    | none =>
      rw [hfile] at hprevious
      exact absurd hprevious List.not_mem_nil
    | some content =>
      rw [hfile] at hprevious
      exact h.plain id content hfile tag hprevious
  · exact htag tag hnew

theorem ne_nil_of_mem_mergedTags (hne : ∀ tag ∈ result.tags, tag ≠ []) {previous : Option Text} :
    ∀ tag ∈ mergedTags previous result.tags, tag ≠ [] := by
  intro tag hmem
  rcases mem_mergedTags.mp hmem with hprevious | hnew
  · cases previous with
    | none => exact absurd hprevious List.not_mem_nil
    | some content => exact (mem_previousTags.mp hprevious).1
  · exact hne tag hnew

/-- The entries behind a write. -/
theorem file_write (hslash : '/' ∉ deviceId event) (id : Text) :
    (store.write event result visit).db.file id =
      if id = deviceId event then some (unlines (dbLines result
        (mergedTags (store.db.file (deviceId event)) result.tags) visit))
      else if id = temporaryName (deviceId event) then none
      else store.db.file id := by
  have hupdate : ∀ id, (writeDeviceDb store.db event result visit).file id =
      if id = deviceId event then some (unlines (dbLines result
        (mergedTags (store.db.file (deviceId event)) result.tags) visit))
      else store.db.file id := fun id => Function.update_apply ..
  rw [TagStore.write, if_neg hslash]
  dsimp only [dropTemporary]
  by_cases htemporary : temporaryName (deviceId event) = deviceId event
  · rw [if_pos htemporary, htemporary, hupdate]
    split
    · rfl
    · rfl
  · rw [if_neg htemporary, Function.update_apply, hupdate]
    by_cases hid : id = deviceId event
    · rw [hid, if_neg (Ne.symm htemporary), if_pos rfl, if_pos rfl]
    · rw [if_neg hid, if_neg hid]

/-- The tag files of a device, before a write, are those of its old tags. -/
theorem TagStore.Tracks.tagFile_iff (h : store.Tracks) (tag id : Text) :
    store.tagFile tag id = true ↔ tag ∈ ((store.db.file id).map previousTags).getD [] := by
  rw [h.agrees tag id]
  cases store.db.file id with
  | none => simp
  | some content => simp

theorem TagStore.Tracks.write (h : store.Tracks) (hne : ∀ tag ∈ result.tags, tag ≠ [])
    (hkeeps : KeepsIndex store event result visit) : (store.write event result visit).Tracks := by
  by_cases hslash : '/' ∈ deviceId event
  · rw [TagStore.write, if_pos hslash]
    exact h
  have hfile : ∀ id, (store.write event result visit).db.file id = _ := file_write hslash
  have hplain := h.plain_merged hkeeps.tag (deviceId event)
  have hread : ∀ tag, tag ∈ previousTags (unlines (dbLines result
      (mergedTags (store.db.file (deviceId event)) result.tags) visit)) ↔
        tag ∈ mergedTags (store.db.file (deviceId event)) result.tags := fun tag =>
    mem_previousTags_dbLines (ne_nil_of_mem_mergedTags hne) hplain
      (fun t ht => mem_mergedTags.mpr (.inr ht)) hkeeps.key
  have htagFile : ∀ tag id, (store.write event result visit).tagFile tag id = true ↔
      (id = deviceId event ∧ tag ∈ mergedTags (store.db.file (deviceId event)) result.tags) ∨
        store.tagFile tag id = true := by
    intro tag id
    rw [TagStore.write, if_neg hslash]
    dsimp only
    split
    · rename_i hnil
      rw [hnil, or_iff_right fun hmem => List.not_mem_nil hmem.2]
    · rename_i hmerged
      rw [writeDeviceTags, hkeeps.id hmerged, Bool.or_eq_true, Bool.and_eq_true,
        decide_eq_true_iff, List.contains_iff_mem]
  constructor
  · intro tag id
    rw [htagFile, hfile]
    by_cases hid : id = deviceId event
    · rw [if_pos hid, hid, h.tagFile_iff]
      constructor
      · rintro (⟨-, hmem⟩ | hmem)
        · exact ⟨_, rfl, (hread tag).mpr hmem⟩
        · exact ⟨_, rfl, (hread tag).mpr (mem_mergedTags.mpr (.inl hmem))⟩
      · rintro ⟨_, ⟨⟩, hmem⟩
        exact .inl ⟨rfl, (hread tag).mp hmem⟩
    · rw [if_neg hid, or_iff_right fun hmem => hid hmem.1]
      by_cases htemporary : id = temporaryName (deviceId event)
      · rw [if_pos htemporary]
        refine iff_of_false ?_ ?_
        · rw [h.agrees tag id]
          rintro ⟨content, hcontent, hmem⟩
          rw [htemporary] at hcontent hid
          rw [hkeeps.temporary hid content hcontent] at hmem
          exact List.not_mem_nil hmem
        · rintro ⟨_, ⟨⟩, -⟩
      · rw [if_neg htemporary]
        exact h.agrees tag id
  · intro id content hcontent tag htag
    rw [hfile] at hcontent
    split at hcontent
    · cases hcontent
      exact hplain tag ((hread tag).mp htag)
    · split at hcontent
      · cases hcontent
      · exact h.plain id content hcontent tag htag

theorem TagStore.Tracks.remove (h : store.Tracks)
    (hkeeps : tagDeviceId event = deviceId event ∨
      ∀ content, (store.db.file (deviceId event) = some content ∨
        store.db.file (tagDeviceId event) = some content) → previousTags content = []) :
    (store.remove event).Tracks := by
  have hfile : ∀ id, (store.remove event).db.file id =
      if id = deviceId event then none else store.db.file id := fun id => Function.update_apply ..
  have htagFile : ∀ tag id, (store.remove event).tagFile tag id = true ↔
      id ≠ tagDeviceId event ∧ store.tagFile tag id = true := by
    intro tag id
    show (!(decide (id = tagDeviceId event) && isListed tag) && store.tagFile tag id) = true ↔ _
    rw [Bool.and_eq_true]
    refine and_congr_left fun hthere => ?_
    obtain ⟨content, hcontent, htag⟩ := (h.agrees tag id).mp hthere
    rw [(h.plain id content hcontent tag htag).listed, Bool.and_true, Bool.not_eq_true',
      decide_eq_false_iff_not]
  have huntagged : ∀ tag id, id = deviceId event ∨ id = tagDeviceId event →
      (∀ content, (store.db.file (deviceId event) = some content ∨
        store.db.file (tagDeviceId event) = some content) → previousTags content = []) →
      store.tagFile tag id ≠ true := by
    intro tag id hid hnil hthere
    obtain ⟨content, hcontent, htag⟩ := (h.agrees tag id).mp hthere
    rw [hnil content (by
      rcases hid with rfl | rfl
      · exact .inl hcontent
      · exact .inr hcontent)] at htag
    exact List.not_mem_nil htag
  constructor
  · intro tag id
    rw [htagFile, hfile]
    by_cases hid : id = deviceId event
    · rw [if_pos hid]
      refine iff_of_false ?_ ?_
      · rintro ⟨hne, hthere⟩
        rcases hkeeps with hsame | hnil
        · exact hne (hid.trans hsame.symm)
        · exact huntagged tag id (.inl hid) hnil hthere
      · rintro ⟨_, ⟨⟩, -⟩
    · rw [if_neg hid, ← h.agrees tag id]
      refine and_iff_right_of_imp fun hthere htagId => ?_
      rcases hkeeps with hsame | hnil
      · exact hid (htagId.trans hsame)
      · exact huntagged tag id (.inr htagId) hnil hthere
  · intro id content hcontent tag htag
    rw [hfile] at hcontent
    split at hcontent
    · cases hcontent
    · exact h.plain id content hcontent tag htag

theorem TagStore.Tracks.processEvent {p : RuledEvent} (h : store.Tracks) (hkeeps : store.Keeps p) :
    (store.processEvent p).Tracks := by
  unfold TagStore.Keeps at hkeeps
  unfold TagStore.processEvent
  split at hkeeps
  · rename_i hset
    rw [if_pos hset]
    cases hwrites : p.writes with
    | once visit =>
      rw [hwrites] at hkeeps
      exact h.write p.tag_ne_nil hkeeps
    | twice left before behind =>
      rw [hwrites] at hkeeps
      exact (h.write p.tag_ne_nil hkeeps.1).write p.tag_ne_nil hkeeps.2
  · rename_i hset
    rw [if_neg hset]
    split at hkeeps
    · rename_i hremove
      rw [if_pos hremove]
      exact h.remove hkeeps
    · rename_i hremove
      rw [if_neg hremove]
      exact h

theorem tracks_newStore : TagStore.new.Tracks := by
  constructor
  · intro tag id
    exact iff_of_false Bool.false_ne_true (by rintro ⟨_, ⟨⟩, -⟩)
  · rintro id content ⟨⟩

/-- In a run whose events all keep the index, it agrees with the database. -/
theorem indexAgrees_of_meets {events : List RuledEvent}
    (hmeets : RunMeets stepTags TagStore.Keeps .new events)
    (hrun : run stepTags .new events = some store) : IndexAgrees store := by
  have htracks : store.Tracks := by
    refine run_inv_of_meets (P := TagStore.Tracks) ?_ events tracks_newStore hmeets hrun
    intro s p s' h hkeeps hstep
    obtain rfl := Option.some.inj hstep
    exact h.processEvent hkeeps
  exact htracks.agrees

/-! ## A disk and an interface -/

theorem newline_notMem_nil : ∀ link ∈ ([] : List Text), '\n' ∉ link :=
  fun _ h => absurd h List.not_mem_nil

/-- `TAG="systemd"`. -/
def oneTag : RuleResult where
  symlinks := []
  tags := ["systemd".toList]
  options := []
  symlink_newline := newline_notMem_nil

def taggedEvent (event : UEvent) : RuledEvent where
  event := event
  result := oneTag
  writes := .once ⟨event.env.pairs, List.Perm.refl _⟩
  tag_ne_nil := by decide

/-- A disk is added and removed. -/
def diskEvents : List RuledEvent :=
  ["add".toList, "remove".toList].map fun action => taggedEvent
    ⟨action, "/devices/sda".toList, "block".toList, "sda".toList, "8".toList, "0".toList, .empty⟩

/-- The run of these events. -/
theorem indexAgrees_diskEvents : ∃ s, run stepTags .new diskEvents = some s ∧ IndexAgrees s := by
  refine ⟨_, rfl, ?_⟩
  have hmeets : RunMeets stepTags TagStore.Keeps .new diskEvents := by
    refine ⟨?_, fun s hs => ⟨.inl rfl, fun _ _ => trivial⟩⟩
    exact {
      id := fun _ => rfl
      tag := fun tag htag => by
        rw [List.mem_singleton.mp htag]
        exact ⟨by decide, by decide, by decide⟩
      key := fun p hp => absurd hp List.not_mem_nil
      temporary := fun _ content hcontent => by cases hcontent }
  exact indexAgrees_of_meets hmeets rfl

/-- An interface with a number and a tag is added. -/
def interfaceAdded : RuledEvent := taggedEvent
  ⟨"add".toList, "/devices/net/eth0".toList, "net".toList, [], [], [],
    SortedMap.empty.insert "IFINDEX".toList "3".toList⟩

/-- The tag file of an interface is there without an entry of its id. -/
theorem interface_index_apart :
    ∃ s, run stepTags .new [interfaceAdded] = some s ∧ ¬ IndexAgrees s := by
  refine ⟨_, rfl, fun h => ?_⟩
  obtain ⟨content, hcontent, -⟩ := (h "systemd".toList "+net:eth0".toList).mp (by decide)
  have hnone : (TagStore.new.processEvent interfaceAdded).db.file "+net:eth0".toList = none := by
    decide
  rw [hnone] at hcontent
  cases hcontent

end OxidizedSystemd.Udevd
