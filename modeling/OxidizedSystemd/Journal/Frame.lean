import OxidizedSystemd.Lib.SortedMap
import OxidizedSystemd.Lib.Utf8
import Mathlib.Tactic.Ring

/-!
# Entry frames of a journal file

Model of `serialize_entry` and `deserialize_entry` (`journal/storage.rs`, lines
335–472) and of the loop over a file's frames. A reader is the list of the bytes
that are left; `read_exact` takes all that is left when it is not enough.

* `deserializeEntry_eq_ok_iff`: when a frame is read, and as which entry.
* `deserializeEntry_serializeEntry`: the round trip.
* `deserializeEntry_truncated`: a frame that is cut off is the end of the file.
* `readEntries_frames`, `readEntries_prefix`: the loop over whole frames, and
  over a file that has grown.
-/

namespace OxidizedSystemd.Journal

open OxidizedSystemd.Lib

/-! ## Entries -/

/-- `struct JournalEntry` (`journal/entry.rs`, lines 66–79). -/
structure JournalEntry where
  fields : SortedMap String Bytes
  realtimeUsec : UInt64
  monotonicUsec : UInt64
  seqnum : UInt64
  deriving DecidableEq

/-- The entry as it is stored under a sequence number. -/
def JournalEntry.stored (e : JournalEntry) (seqnum : UInt64) : JournalEntry :=
  { e with seqnum := seqnum }

/-- The errors of the readers and writers: `ErrorKind::UnexpectedEof`, `InvalidData` and
    `Other` with their texts. -/
inductive IoError
  | unexpectedEof
  | invalidData (msg : String)
  | other (msg : String)
  deriving DecidableEq, Repr

/-! ## Writing -/

/-- The bytes of a field (lines 368–374). -/
def fieldBytes (f : String × Bytes) : Bytes :=
  toLe 2 (asBytes f.1).length ++ (toLe 4 f.2.length ++ (asBytes f.1 ++ f.2))

/-- The size of the frame body (lines 338–349). -/
def bodySize (e : JournalEntry) : ℕ :=
  e.fields.pairs.foldl (fun size f => size + 2 + 4 + (asBytes f.1).length + f.2.length)
    (8 + 8 + 8 + 4)

/-- The frame body (lines 358–374). -/
def frameBody (e : JournalEntry) (seqnum : UInt64) : Bytes :=
  toLe 8 e.realtimeUsec.toNat ++ (toLe 8 e.monotonicUsec.toNat ++ (toLe 8 seqnum.toNat ++
    (toLe 4 e.fields.pairs.length ++ e.fields.pairs.flatMap fieldBytes)))

/-- `serialize_entry` (lines 336–381); a length is cast to its width. -/
def serializeEntry (e : JournalEntry) (seqnum : UInt64) : Bytes :=
  toLe 4 (bodySize e) ++ (frameBody e seqnum ++ toLe 4 (bodySize e))

/-! ## Reading -/

/-- `Read::read_exact` on the bytes that are left. -/
def readExact (n : ℕ) (bs : Bytes) : Except IoError Bytes × Bytes :=
  if n ≤ bs.length then (.ok (bs.take n), bs.drop n) else (.error .unexpectedEof, [])

/-- `MAX_FRAME_LEN` (line 399). -/
def maxFrameLen : ℕ := 64 * 1024 * 1024

/-- The loop over the fields (lines 439–465). -/
def parseFields : ℕ → Bytes → SortedMap String Bytes → Except IoError (SortedMap String Bytes)
  | 0, _, fields => .ok fields
  | count + 1, bs, fields =>
    if bs.length < 6 then .error (.invalidData "truncated field header")
    else
      let keyLen := ofLe (bs.take 2)
      let valueLen := ofLe ((bs.drop 2).take 4)
      let data := bs.drop 6
      if data.length < keyLen + valueLen then .error (.invalidData "truncated field data")
      else
        parseFields count (data.drop (keyLen + valueLen))
          (fields.insert (fromUtf8Lossy (data.take keyLen)) ((data.drop keyLen).take valueLen))

/-- The entry of a frame body (lines 425–471). -/
def parseBody (body : Bytes) : Except IoError JournalEntry :=
  (parseFields (ofLe ((body.drop 24).take 4)) (body.drop 28) SortedMap.empty).map fun fields =>
    { fields := fields
      realtimeUsec := UInt64.ofNat (ofLe (body.take 8))
      monotonicUsec := UInt64.ofNat (ofLe ((body.drop 8).take 8))
      seqnum := UInt64.ofNat (ofLe ((body.drop 16).take 8)) }

/-- Body and trailer of a frame (lines 407–471). -/
def deserializeBody (frameLen : ℕ) (bs : Bytes) : Except IoError JournalEntry × Bytes :=
  match readExact frameLen bs with
  | (.error e, bs) => (.error e, bs)
  | (.ok body, bs) =>
    match readExact 4 bs with
    | (.error e, bs) => (.error e, bs)
    | (.ok trail, bs) =>
      if ofLe trail ≠ frameLen then
        (.error (.invalidData ("frame length mismatch: header=" ++ toString frameLen ++
          ", trailer=" ++ toString (ofLe trail))), bs)
      else (parseBody body, bs)

/-- `deserialize_entry` (lines 384–472). -/
def deserializeEntry (bs : Bytes) : Except IoError JournalEntry × Bytes :=
  match readExact 4 bs with
  | (.error e, bs) => (.error e, bs)
  | (.ok lenBuf, bs) =>
    let frameLen := ofLe lenBuf
    if frameLen < 28 then
      (.error (.invalidData ("frame too small: " ++ toString frameLen ++ " bytes")), bs)
    else if frameLen > maxFrameLen then
      (.error (.invalidData ("frame too large: " ++ toString frameLen ++ " bytes")), bs)
    else deserializeBody frameLen bs

/-- The loop of `read_all` (lines 306–320), at most `fuel` times. -/
def readLoop : ℕ → Bytes → List JournalEntry × Bytes
  | 0, bs => ([], bs)
  | fuel + 1, bs =>
    match deserializeEntry bs with
    | (.ok e, rest) => (e :: (readLoop fuel rest).1, (readLoop fuel rest).2)
    | (.error _, rest) => ([], rest)

/-- The loop of `read_all`, with the bytes left after it. Every frame has a byte, so it is
    never out of fuel. -/
def readEntries (bs : Bytes) : List JournalEntry × Bytes := readLoop (bs.length + 1) bs

/-! ## What is read -/

theorem readExact_append {n : ℕ} {as : Bytes} (h : as.length = n) (bs : Bytes) :
    readExact n (as ++ bs) = (.ok as, bs) := by
  have hle : n ≤ (as ++ bs).length := by rw [List.length_append]; omega
  rw [readExact, if_pos hle, ← h, List.take_left, List.drop_left]

theorem readExact_eof {n : ℕ} {bs : Bytes} (h : bs.length < n) :
    readExact n bs = (.error .unexpectedEof, []) := by
  rw [readExact, if_neg (by omega)]

theorem readExact_eq_ok {n : ℕ} {bs as rest : Bytes} (h : readExact n bs = (.ok as, rest)) :
    bs = as ++ rest ∧ as.length = n := by
  unfold readExact at h
  split at h
  · cases h
    exact ⟨(List.take_append_drop n bs).symm, List.length_take_of_le ‹_›⟩
  · cases h

/-- The bytes of a frame: a body between two copies of its length. -/
structure IsFrame (bs body : Bytes) : Prop where
  parts : ∃ len trail : Bytes, bs = len ++ (body ++ trail) ∧ len.length = 4 ∧ trail.length = 4 ∧
    ofLe len = body.length ∧ ofLe trail = body.length
  ge : 28 ≤ body.length
  le : body.length ≤ maxFrameLen

theorem IsFrame.length {bs body : Bytes} (h : IsFrame bs body) :
    bs.length = body.length + 8 := by
  obtain ⟨len, trail, rfl, hlen, htrail, -, -⟩ := h.parts
  simp only [List.length_append]
  omega

/-- A frame is read as what its body parses to. -/
theorem deserializeEntry_frame {bs body : Bytes} (h : IsFrame bs body) (rest : Bytes) :
    deserializeEntry (bs ++ rest) = (parseBody body, rest) := by
  obtain ⟨len, trail, rfl, hlen, htrail, hlenval, htrailval⟩ := h.parts
  have hge := h.ge
  have hle := h.le
  simp only [List.append_assoc]
  unfold deserializeEntry
  rw [readExact_append hlen]
  dsimp only
  rw [hlenval, if_neg (by omega), if_neg (by omega)]
  unfold deserializeBody
  rw [readExact_append rfl]
  dsimp only
  rw [readExact_append htrail]
  dsimp only
  rw [if_neg (by rw [htrailval]; exact fun h => h rfl)]

/-- What an entry is read from begins with a frame whose body parses. -/
theorem exists_frame_of_deserializeEntry {bs rest : Bytes} {e : JournalEntry}
    (h : deserializeEntry bs = (.ok e, rest)) :
    ∃ frame body, bs = frame ++ rest ∧ IsFrame frame body ∧ parseBody body = .ok e := by
  unfold deserializeEntry at h
  rcases hlen : readExact 4 bs with ⟨_ | len, bs₁⟩
  · rw [hlen] at h; cases h
  rw [hlen] at h
  obtain ⟨rfl, hlenlen⟩ := readExact_eq_ok hlen
  dsimp only at h
  split at h
  · cases h
  rename_i hge
  split at h
  · cases h
  rename_i hle
  unfold deserializeBody at h
  rcases hbody : readExact (ofLe len) bs₁ with ⟨_ | body, bs₂⟩
  · rw [hbody] at h; cases h
  rw [hbody] at h
  obtain ⟨rfl, hbodylen⟩ := readExact_eq_ok hbody
  dsimp only at h
  rcases htrail : readExact 4 bs₂ with ⟨_ | trail, bs₃⟩
  · rw [htrail] at h; cases h
  rw [htrail] at h
  obtain ⟨rfl, htraillen⟩ := readExact_eq_ok htrail
  dsimp only at h
  split at h
  · cases h
  rename_i heq
  obtain ⟨hparse, rfl⟩ := Prod.mk.inj h
  refine ⟨len ++ (body ++ trail), body, by simp only [List.append_assoc],
    ⟨⟨len, trail, rfl, hlenlen, htraillen, hbodylen.symm, ?_⟩, by omega, by omega⟩, hparse⟩
  rw [hbodylen]
  exact not_not.mp heq

/-- An entry is read exactly from a frame whose body parses. -/
theorem deserializeEntry_eq_ok_iff {bs rest : Bytes} {e : JournalEntry} :
    deserializeEntry bs = (.ok e, rest) ↔
      ∃ frame body, bs = frame ++ rest ∧ IsFrame frame body ∧ parseBody body = .ok e := by
  constructor
  · exact exists_frame_of_deserializeEntry
  · rintro ⟨frame, body, rfl, hframe, hparse⟩
    rw [deserializeEntry_frame hframe, hparse]

/-- What is read of a file is still read when the file has grown. -/
theorem deserializeEntry_append {bs rest : Bytes} {e : JournalEntry}
    (h : deserializeEntry bs = (.ok e, rest)) (tail : Bytes) :
    deserializeEntry (bs ++ tail) = (.ok e, rest ++ tail) := by
  obtain ⟨frame, body, rfl, hframe, hparse⟩ := exists_frame_of_deserializeEntry h
  rw [List.append_assoc, deserializeEntry_frame hframe, hparse]

theorem deserializeEntry_length {bs rest : Bytes} {e : JournalEntry}
    (h : deserializeEntry bs = (.ok e, rest)) : rest.length < bs.length := by
  obtain ⟨frame, body, rfl, hframe, -⟩ := exists_frame_of_deserializeEntry h
  have := hframe.length
  rw [List.length_append]
  omega

/-- The beginning of a frame is the end of the file. -/
theorem deserializeEntry_truncated {frame body : Bytes} (h : IsFrame frame body) {k : ℕ}
    (hk : k < frame.length) : deserializeEntry (frame.take k) = (.error .unexpectedEof, []) := by
  have hlength := h.length
  have hge := h.ge
  have hle := h.le
  obtain ⟨len, trail, rfl, hlen, htrail, hlenval, -⟩ := h.parts
  unfold deserializeEntry
  by_cases hk4 : k < 4
  · rw [readExact_eof (by rw [List.length_take]; omega)]
  rw [List.take_append, List.take_of_length_le (by omega), readExact_append hlen]
  dsimp only
  rw [hlenval, if_neg (by omega), if_neg (by omega)]
  unfold deserializeBody
  by_cases hkbody : k - len.length < body.length
  · rw [readExact_eof (by rw [List.length_take, List.length_append]; omega)]
  rw [List.take_append, List.take_of_length_le (by omega), readExact_append rfl]
  dsimp only
  rw [readExact_eof (by rw [List.length_take]; omega)]

/-! ## The loop -/

theorem readLoop_fuel {bs : Bytes} : ∀ {m n : ℕ}, bs.length < m → bs.length < n →
    readLoop m bs = readLoop n bs
  | m + 1, n + 1, hm, hn => by
    unfold readLoop
    rcases hd : deserializeEntry bs with ⟨_ | e, rest⟩
    · rfl
    · have := deserializeEntry_length hd
      dsimp only
      rw [readLoop_fuel (m := m) (n := n) (by omega) (by omega)]

theorem readEntries_ok {bs rest : Bytes} {e : JournalEntry}
    (h : deserializeEntry bs = (.ok e, rest)) :
    readEntries bs = (e :: (readEntries rest).1, (readEntries rest).2) := by
  have := deserializeEntry_length h
  rw [readEntries, readLoop, h]
  dsimp only
  rw [readLoop_fuel (n := rest.length + 1) (by omega) (by omega)]
  rfl

theorem readEntries_error {bs rest : Bytes} {err : IoError}
    (h : deserializeEntry bs = (.error err, rest)) : readEntries bs = ([], rest) := by
  rw [readEntries, readLoop, h]

theorem readEntries_nil : readEntries [] = ([], []) := readEntries_error rfl

/-- Reading a file by its first entry. -/
theorem readEntries_induction {P : Bytes → Prop}
    (error : ∀ bs rest err, deserializeEntry bs = (.error err, rest) → P bs)
    (ok : ∀ bs rest e, deserializeEntry bs = (.ok e, rest) → P rest → P bs) (bs : Bytes) :
    P bs := by
  induction hn : bs.length using Nat.strong_induction_on generalizing bs with
  | _ n ih =>
    rcases hd : deserializeEntry bs with ⟨err | e, rest⟩
    · exact error bs rest err hd
    · exact ok bs rest e hd (ih rest.length (hn ▸ deserializeEntry_length hd) rest rfl)

/-- A file that has grown has the entries it had, and perhaps more. -/
theorem readEntries_prefix (bs tail : Bytes) :
    (readEntries bs).1 <+: (readEntries (bs ++ tail)).1 := by
  induction bs using readEntries_induction with
  | error bs rest err h => rw [readEntries_error h]; exact List.nil_prefix
  | ok bs rest e h ih =>
    rw [readEntries_ok h, readEntries_ok (deserializeEntry_append h tail)]
    exact List.cons_prefix_cons.mpr ⟨rfl, ih⟩

/-! ## The round trip -/

/-- What the reader can take: keys of at most 65535 bytes and a body of at most 64 MiB. -/
structure JournalEntry.Fits (e : JournalEntry) : Prop where
  keys : ∀ f ∈ e.fields.pairs, (asBytes f.1).length ≤ 65535
  body : bodySize e ≤ maxFrameLen

instance (e : JournalEntry) : Decidable e.Fits :=
  decidable_of_iff ((∀ f ∈ e.fields.pairs, (asBytes f.1).length ≤ 65535) ∧
    bodySize e ≤ maxFrameLen) ⟨fun h => ⟨h.1, h.2⟩, fun h => ⟨h.keys, h.body⟩⟩

theorem JournalEntry.Fits.stored {e : JournalEntry} (h : e.Fits) (seqnum : UInt64) :
    (e.stored seqnum).Fits := ⟨h.keys, h.body⟩

theorem length_fieldBytes (f : String × Bytes) :
    (fieldBytes f).length = 6 + (asBytes f.1).length + f.2.length := by
  simp only [fieldBytes, List.length_append, length_toLe]
  ring

theorem foldl_size (ps : List (String × Bytes)) (size : ℕ) :
    ps.foldl (fun size f => size + 2 + 4 + (asBytes f.1).length + f.2.length) size =
      size + (ps.flatMap fieldBytes).length := by
  induction ps generalizing size with
  | nil => rfl
  | cons p ps ih =>
    rw [List.foldl_cons, ih, List.flatMap_cons, List.length_append, length_fieldBytes]
    ring

theorem bodySize_eq (e : JournalEntry) :
    bodySize e = 28 + (e.fields.pairs.flatMap fieldBytes).length :=
  foldl_size e.fields.pairs (8 + 8 + 8 + 4)

theorem length_frameBody (e : JournalEntry) (seqnum : UInt64) :
    (frameBody e seqnum).length = bodySize e := by
  rw [bodySize_eq]
  simp only [frameBody, List.length_append, length_toLe]
  ring

/-- What is written is a frame, unless it is too long. -/
theorem serializeEntry_isFrame {e : JournalEntry} (h : bodySize e ≤ maxFrameLen)
    (seqnum : UInt64) : IsFrame (serializeEntry e seqnum) (frameBody e seqnum) := by
  have hsize : ofLe (toLe 4 (bodySize e)) = (frameBody e seqnum).length := by
    rw [length_frameBody]
    exact ofLe_toLe_of_lt (Nat.lt_of_le_of_lt h (by decide))
  refine ⟨⟨_, _, rfl, length_toLe _ _, length_toLe _ _, hsize, hsize⟩, ?_, ?_⟩
  · rw [length_frameBody, bodySize_eq]
    exact Nat.le_add_right _ _
  · rw [length_frameBody]
    exact h

theorem length_serializeEntry (e : JournalEntry) (seqnum : UInt64) :
    (serializeEntry e seqnum).length = bodySize e + 8 := by
  simp only [serializeEntry, List.length_append, length_toLe, length_frameBody]
  ring

theorem take_append_of_length {n : ℕ} {as : Bytes} (h : as.length = n) (bs : Bytes) :
    (as ++ bs).take n = as := by
  rw [← h, List.take_left]

theorem drop_append_of_length {n : ℕ} {as : Bytes} (h : as.length = n) (bs : Bytes) :
    (as ++ bs).drop n = bs := by
  rw [← h, List.drop_left]

/-- One field of the body, in front of the others. -/
theorem parseFields_cons {f : String × Bytes} (hkey : (asBytes f.1).length ≤ 65535)
    (hvalue : f.2.length < 2 ^ 32) (count : ℕ) (bs : Bytes) (m : SortedMap String Bytes) :
    parseFields (count + 1) (fieldBytes f ++ bs) m = parseFields count bs (m.insert f.1 f.2) := by
  have hklen : ofLe (toLe 2 (asBytes f.1).length) = (asBytes f.1).length :=
    ofLe_toLe_of_lt (by norm_num; omega)
  have hvlen : ofLe (toLe 4 f.2.length) = f.2.length := ofLe_toLe_of_lt (by norm_num; omega)
  have hlong : ¬ (fieldBytes f ++ bs).length < 6 := by
    rw [List.length_append, length_fieldBytes]; omega
  have hdata : (fieldBytes f ++ bs).drop 6 = asBytes f.1 ++ (f.2 ++ bs) := by
    have hsplit : fieldBytes f ++ bs =
        (toLe 2 (asBytes f.1).length ++ toLe 4 f.2.length) ++ (asBytes f.1 ++ (f.2 ++ bs)) := by
      simp only [fieldBytes, List.append_assoc]
    rw [hsplit, drop_append_of_length (by simp only [List.length_append, length_toLe])]
  have hkeylen : (fieldBytes f ++ bs).take 2 = toLe 2 (asBytes f.1).length := by
    rw [fieldBytes, List.append_assoc]
    exact take_append_of_length (length_toLe _ _) _
  have hvaluelen : ((fieldBytes f ++ bs).drop 2).take 4 = toLe 4 f.2.length := by
    rw [fieldBytes, List.append_assoc, drop_append_of_length (length_toLe _ _), List.append_assoc]
    exact take_append_of_length (length_toLe _ _) _
  rw [parseFields, if_neg hlong]
  dsimp only
  rw [hkeylen, hvaluelen, hdata, hklen, hvlen, if_neg (by simp only [List.length_append]; omega),
    List.take_left, fromUtf8Lossy_asBytes, List.drop_left, List.take_left, ← List.append_assoc,
    drop_append_of_length (List.length_append)]

theorem parseFields_flatMap {ps : List (String × Bytes)}
    (h : ∀ f ∈ ps, (asBytes f.1).length ≤ 65535 ∧ f.2.length < 2 ^ 32)
    (m : SortedMap String Bytes) :
    parseFields ps.length (ps.flatMap fieldBytes) m =
      .ok (ps.foldl (fun m f => m.insert f.1 f.2) m) := by
  induction ps generalizing m with
  | nil => rfl
  | cons f ps ih =>
    have hf := h f List.mem_cons_self
    rw [List.length_cons, List.flatMap_cons, parseFields_cons hf.1 hf.2,
      ih fun g hg => h g (List.mem_cons_of_mem f hg), List.foldl_cons]

theorem length_le_length_flatMap {f : String × Bytes} {ps : List (String × Bytes)} (h : f ∈ ps) :
    f.2.length ≤ (ps.flatMap fieldBytes).length := by
  induction ps with
  | nil => cases h
  | cons g ps ih =>
    rw [List.flatMap_cons, List.length_append]
    rcases List.mem_cons.mp h with rfl | h
    · rw [length_fieldBytes]; omega
    · have := ih h; omega

theorem six_mul_length_le (ps : List (String × Bytes)) :
    6 * ps.length ≤ (ps.flatMap fieldBytes).length := by
  induction ps with
  | nil => exact Nat.zero_le _
  | cons f ps ih =>
    rw [List.flatMap_cons, List.length_append, length_fieldBytes, List.length_cons]
    omega

theorem ofNat_ofLe_toLe (x : UInt64) : UInt64.ofNat (ofLe (toLe 8 x.toNat)) = x := by
  rw [ofLe_toLe_of_lt (by norm_num; exact x.toNat_lt), UInt64.ofNat_toNat]

theorem frameBody_take (e : JournalEntry) (seqnum : UInt64) :
    (frameBody e seqnum).take 8 = toLe 8 e.realtimeUsec.toNat :=
  take_append_of_length (length_toLe 8 _) _

theorem frameBody_drop8 (e : JournalEntry) (seqnum : UInt64) :
    (frameBody e seqnum).drop 8 = toLe 8 e.monotonicUsec.toNat ++ (toLe 8 seqnum.toNat ++
      (toLe 4 e.fields.pairs.length ++ e.fields.pairs.flatMap fieldBytes)) :=
  drop_append_of_length (length_toLe 8 _) _

theorem frameBody_drop16 (e : JournalEntry) (seqnum : UInt64) :
    (frameBody e seqnum).drop 16 = toLe 8 seqnum.toNat ++
      (toLe 4 e.fields.pairs.length ++ e.fields.pairs.flatMap fieldBytes) := by
  rw [show 16 = 8 + 8 from rfl, ← List.drop_drop, frameBody_drop8,
    drop_append_of_length (length_toLe 8 _)]

theorem frameBody_drop24 (e : JournalEntry) (seqnum : UInt64) :
    (frameBody e seqnum).drop 24 =
      toLe 4 e.fields.pairs.length ++ e.fields.pairs.flatMap fieldBytes := by
  rw [show 24 = 16 + 8 from rfl, ← List.drop_drop, frameBody_drop16,
    drop_append_of_length (length_toLe 8 _)]

theorem frameBody_drop28 (e : JournalEntry) (seqnum : UInt64) :
    (frameBody e seqnum).drop 28 = e.fields.pairs.flatMap fieldBytes := by
  rw [show 28 = 24 + 4 from rfl, ← List.drop_drop, frameBody_drop24,
    drop_append_of_length (length_toLe 4 _)]

/-- The sequence number in the body of a frame. -/
theorem frameBody_seqnum (e : JournalEntry) (seqnum : UInt64) :
    UInt64.ofNat (ofLe (((frameBody e seqnum).drop 16).take 8)) = seqnum := by
  rw [frameBody_drop16, take_append_of_length (length_toLe 8 _), ofNat_ofLe_toLe]

/-- The body of an entry's frame is read as the entry. -/
theorem parseBody_frameBody {e : JournalEntry} (h : e.Fits) (seqnum : UInt64) :
    parseBody (frameBody e seqnum) = .ok (e.stored seqnum) := by
  have hsize : (e.fields.pairs.flatMap fieldBytes).length ≤ maxFrameLen := by
    have := h.body
    rw [bodySize_eq] at this
    omega
  have hmax : maxFrameLen < 2 ^ 32 := by decide
  have hcount : ofLe (toLe 4 e.fields.pairs.length) = e.fields.pairs.length := by
    have := six_mul_length_le e.fields.pairs
    exact ofLe_toLe_of_lt (by norm_num; omega)
  have hfields : ∀ f ∈ e.fields.pairs, (asBytes f.1).length ≤ 65535 ∧ f.2.length < 2 ^ 32 :=
    fun f hf => ⟨h.keys f hf, by have := length_le_length_flatMap hf; omega⟩
  rw [parseBody, frameBody_seqnum, frameBody_drop24, take_append_of_length (length_toLe 4 _),
    hcount, frameBody_drop28, parseFields_flatMap hfields, SortedMap.foldl_insert, frameBody_take,
    frameBody_drop8, take_append_of_length (length_toLe 8 _), ofNat_ofLe_toLe, ofNat_ofLe_toLe]
  rfl

/-- The round trip, in front of any bytes. -/
theorem deserializeEntry_serializeEntry {e : JournalEntry} (h : e.Fits) (seqnum : UInt64)
    (rest : Bytes) :
    deserializeEntry (serializeEntry e seqnum ++ rest) = (.ok (e.stored seqnum), rest) := by
  rw [deserializeEntry_frame (serializeEntry_isFrame h.body seqnum), parseBody_frameBody h]

/-- Whatever its keys are, an entry is read with the number it was written with, or not at all. -/
theorem deserializeEntry_seqnum {e : JournalEntry} (h : bodySize e < 2 ^ 32) (seqnum : UInt64)
    (rest : Bytes) :
    (∃ e' : JournalEntry, deserializeEntry (serializeEntry e seqnum ++ rest) = (.ok e', rest) ∧
      e'.seqnum = seqnum) ∨
    ∃ err rest', deserializeEntry (serializeEntry e seqnum ++ rest) = (.error err, rest') := by
  by_cases hmax : bodySize e ≤ maxFrameLen
  · rw [deserializeEntry_frame (serializeEntry_isFrame hmax seqnum)]
    cases hparse : parseBody (frameBody e seqnum) with
    | error err => exact .inr ⟨err, rest, rfl⟩
    | ok e' =>
      refine .inl ⟨e', rfl, ?_⟩
      unfold parseBody at hparse
      cases hfields : parseFields (ofLe (((frameBody e seqnum).drop 24).take 4))
        ((frameBody e seqnum).drop 28) SortedMap.empty with
      | error err => rw [hfields] at hparse; cases hparse
      | ok fields =>
        rw [hfields] at hparse
        rw [← Except.ok.inj hparse]
        exact frameBody_seqnum e seqnum
  · refine .inr ⟨.invalidData ("frame too large: " ++ toString (bodySize e) ++ " bytes"),
      frameBody e seqnum ++ (toLe 4 (bodySize e) ++ rest), ?_⟩
    have hlen : ofLe (toLe 4 (bodySize e)) = bodySize e := ofLe_toLe_of_lt h
    have hge : 28 ≤ bodySize e := by rw [bodySize_eq]; exact Nat.le_add_right _ _
    unfold deserializeEntry serializeEntry
    rw [List.append_assoc, readExact_append (length_toLe 4 _), List.append_assoc]
    dsimp only
    rw [hlen, if_neg (by omega), if_pos (by omega)]

/-- The frames of stored entries, one after the other. -/
def frames (es : List JournalEntry) : Bytes := es.flatMap fun e => serializeEntry e e.seqnum

theorem frames_cons (e : JournalEntry) (es : List JournalEntry) :
    frames (e :: es) = serializeEntry e e.seqnum ++ frames es := List.flatMap_cons

theorem frames_append (es es' : List JournalEntry) :
    frames (es ++ es') = frames es ++ frames es' := List.flatMap_append

/-- Appending the frame of an entry. -/
theorem frames_concat (es : List JournalEntry) (e : JournalEntry) (seqnum : UInt64) :
    frames (es ++ [e.stored seqnum]) = frames es ++ serializeEntry e seqnum := by
  rw [frames_append, frames_cons]
  exact congrArg _ (List.append_nil _)

/-- Whole frames are read one by one, and then what follows them. -/
theorem readEntries_frames_append {es : List JournalEntry} (h : ∀ e ∈ es, e.Fits)
    (tail : Bytes) :
    readEntries (frames es ++ tail) = (es ++ (readEntries tail).1, (readEntries tail).2) := by
  induction es with
  | nil => rfl
  | cons e es ih =>
    have he := deserializeEntry_serializeEntry (h e List.mem_cons_self) e.seqnum
      (frames es ++ tail)
    rw [frames_cons, List.append_assoc, readEntries_ok he,
      ih fun e' he' => h e' (List.mem_cons_of_mem e he')]
    rfl

theorem readEntries_frames {es : List JournalEntry} (h : ∀ e ∈ es, e.Fits) :
    readEntries (frames es) = (es, []) := by
  have := readEntries_frames_append h []
  rwa [List.append_nil, readEntries_nil, List.append_nil] at this

/-- Of frames that are cut off at `k`, those that end at or before `k` are read. -/
theorem readEntries_take {es : List JournalEntry} (h : ∀ e ∈ es, e.Fits) (k : ℕ) :
    ∃ n ≤ es.length, (readEntries ((frames es).take k)).1 = es.take n ∧
      ∀ i < es.length, i < n ↔ (frames (es.take (i + 1))).length ≤ k := by
  induction es generalizing k with
  | nil =>
    refine ⟨0, le_rfl, ?_, fun i hi => absurd hi (Nat.not_lt_zero i)⟩
    rw [show frames [] = [] from rfl, List.take_nil, readEntries_nil]
    rfl
  | cons e es ih =>
    have he := h e List.mem_cons_self
    by_cases hk : k < (serializeEntry e e.seqnum).length
    · refine ⟨0, Nat.zero_le _, ?_, fun i _ => ?_⟩
      · have heof := deserializeEntry_truncated (serializeEntry_isFrame he.body e.seqnum) hk
        rw [frames_cons, List.take_append_of_le_length (by omega), readEntries_error heof,
          List.take_zero]
      · rw [List.take_succ_cons, frames_cons, List.length_append]
        omega
    · obtain ⟨n, hn, hread, hiff⟩ := ih (fun e' he' => h e' (List.mem_cons_of_mem e he'))
        (k - (serializeEntry e e.seqnum).length)
      refine ⟨n + 1, Nat.succ_le_succ hn, ?_, fun i hi => ?_⟩
      · have hok := deserializeEntry_serializeEntry he e.seqnum
          ((frames es).take (k - (serializeEntry e e.seqnum).length))
        rw [frames_cons, List.take_append, List.take_of_length_le (not_lt.mp hk),
          readEntries_ok hok, hread, List.take_succ_cons]
        rfl
      · rw [List.take_succ_cons, frames_cons, List.length_append]
        cases i with
        | zero =>
          rw [List.take_zero, show (frames []).length = 0 from rfl]
          omega
        | succ i =>
          have := hiff i (Nat.lt_of_succ_lt_succ hi)
          omega

end OxidizedSystemd.Journal
