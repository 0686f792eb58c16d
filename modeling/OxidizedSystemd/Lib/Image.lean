import OxidizedSystemd.Lib.LittleEndian

/-!
# Images

A file as the list of its bytes, written and read at offsets.

* `readAt_writeAt_self`: what is written is read again.
* `readAt_writeAt_of_before`, `readAt_writeAt_of_after`: other places stay as they are.
* `readAt_writeAt_inside`: a part of what is written.
-/

namespace OxidizedSystemd.Lib

/-- `seek` and `write_all`, of at least one byte: a gap behind the end is filled with zeros. -/
def writeAt (image : Bytes) (off : ℕ) (data : Bytes) : Bytes :=
  image.take off ++ List.replicate (off - image.length) 0 ++ data ++
    image.drop (off + data.length)

/-- `seek` and `read`, of up to `n` bytes. -/
def readAt (image : Bytes) (off n : ℕ) : Bytes := (image.drop off).take n

variable {image data : Bytes} {off o n : ℕ}

theorem length_writeAt (image : Bytes) (off : ℕ) (data : Bytes) :
    (writeAt image off data).length = max image.length (off + data.length) := by
  simp only [writeAt, List.length_append, List.length_take, List.length_replicate,
    List.length_drop]
  omega

theorem getElem?_readAt (i : ℕ) : (readAt image off n)[i]? =
    if i < n then image[off + i]? else none := by
  rw [readAt, List.getElem?_take]
  split
  · rw [List.getElem?_drop]
  · rfl

/-- The bytes of an image after a write: those that are written, the others, and zeros between. -/
theorem getElem?_writeAt (i : ℕ) : (writeAt image off data)[i]? =
    if i < off then (if i < image.length then image[i]? else some 0)
    else if i < off + data.length then data[i - off]? else image[i]? := by
  have hfront : (image.take off ++ List.replicate (off - image.length) 0).length = off := by
    simp only [List.length_append, List.length_take, List.length_replicate]
    omega
  rw [writeAt, List.append_assoc, List.getElem?_append, hfront]
  split
  · rename_i hi
    rw [List.getElem?_append, List.length_take, List.getElem?_take, List.getElem?_replicate]
    by_cases hlen : i < image.length
    · rw [if_pos (by omega), if_pos hi, if_pos hlen]
    · rw [if_neg (by omega), if_neg hlen, if_pos (by omega)]
  · rename_i hi
    rw [List.getElem?_append, List.getElem?_drop]
    by_cases hlen : i - off < data.length
    · rw [if_pos hlen, if_pos (by omega)]
    · rw [if_neg hlen, if_neg (by omega),
        show off + data.length + (i - off - data.length) = i by omega]

/-- A part of an image is written anew. -/
theorem writeAt_append {front old : Bytes} (hoff : front.length = off)
    (hlen : old.length = data.length) (rest : Bytes) :
    writeAt (front ++ (old ++ rest)) off data = front ++ (data ++ rest) := by
  have hdrop : (front ++ (old ++ rest)).drop (off + data.length) = rest := by
    rw [← List.append_assoc]
    exact List.drop_left' (by rw [List.length_append, hoff, hlen])
  have hgap : off - (front ++ (old ++ rest)).length = 0 := by
    rw [List.length_append]
    omega
  rw [writeAt, hdrop, hgap, List.take_left' hoff, List.replicate_zero, List.append_nil,
    List.append_assoc]

/-- A part of what is written. -/
theorem readAt_writeAt_inside (h : off ≤ o) (hend : o + n ≤ off + data.length) :
    readAt (writeAt image off data) o n = readAt data (o - off) n := by
  apply List.ext_getElem?
  intro i
  rw [getElem?_readAt, getElem?_readAt, getElem?_writeAt]
  by_cases hi : i < n
  · rw [if_pos hi, if_pos hi, if_neg (by omega), if_pos (by omega),
      show o + i - off = o - off + i by omega]
  · rw [if_neg hi, if_neg hi]

/-- What is written is read again. -/
theorem readAt_writeAt_self (image : Bytes) (off : ℕ) (data : Bytes) :
    readAt (writeAt image off data) off data.length = data := by
  rw [readAt_writeAt_inside (Nat.le_refl off) (Nat.le_refl _), Nat.sub_self, readAt, List.drop_zero,
    List.take_length]

/-- What lies before a write stays as it is. -/
theorem readAt_writeAt_of_before (h : o + n ≤ off) (hlen : o + n ≤ image.length) :
    readAt (writeAt image off data) o n = readAt image o n := by
  apply List.ext_getElem?
  intro i
  rw [getElem?_readAt, getElem?_readAt, getElem?_writeAt]
  by_cases hi : i < n
  · rw [if_pos hi, if_pos hi, if_pos (by omega), if_pos (by omega)]
  · rw [if_neg hi, if_neg hi]

/-- What lies behind a write stays as it is. -/
theorem readAt_writeAt_of_after (h : off + data.length ≤ o) :
    readAt (writeAt image off data) o n = readAt image o n := by
  apply List.ext_getElem?
  intro i
  rw [getElem?_readAt, getElem?_readAt, getElem?_writeAt]
  by_cases hi : i < n
  · rw [if_pos hi, if_pos hi, if_neg (by omega), if_neg (by omega)]
  · rw [if_neg hi, if_neg hi]

theorem length_readAt (h : off + n ≤ image.length) : (readAt image off n).length = n := by
  rw [readAt, List.length_take, List.length_drop]
  omega

/-- A part of what is read. -/
theorem readAt_readAt {len : ℕ} (h : o + n ≤ len) (image : Bytes) (off : ℕ) :
    readAt (readAt image off len) o n = readAt image (off + o) n := by
  apply List.ext_getElem?
  intro i
  rw [getElem?_readAt, getElem?_readAt, getElem?_readAt]
  by_cases hi : i < n
  · rw [if_pos hi, if_pos hi, if_pos (by omega), Nat.add_assoc]
  · rw [if_neg hi, if_neg hi]

end OxidizedSystemd.Lib
