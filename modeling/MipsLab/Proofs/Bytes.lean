import MipsLab.Bytes
import MipsLab.Word

/-!
# Byte arrays as lists

What growing a byte array does to its bytes, as the list of them, and which bytes are read back.

1. `le_roundUp`, `dvd_roundUp`, `roundUp_le`: a size is rounded up to the least multiple above it.
2. `Bytes.contents_appendList`, `Bytes.contents_padTo`: growing puts a list of bytes, or of zeros,
   behind the others.
3. `Bytes.getElem?_overwrite`: overwriting changes one stretch of an array.
4. `Bytes.slice_of_contents`: a stretch of an array is the list that stands there.
5. `Word.ofBytes_bytes`: a word is made of its own four bytes.
6. `Word.ofBytes_slice`: an array of words is read back one word at a time.
-/

namespace MipsLab

/-! ## Rounding up -/

theorem le_roundUp {n multiple : Nat} (h : 0 < multiple) : n ≤ roundUp n multiple := by
  have hdiv := Nat.div_add_mod (n + multiple - 1) multiple
  have hmod := Nat.mod_lt (n + multiple - 1) h
  rw [Nat.mul_comm] at hdiv
  unfold roundUp
  omega

theorem dvd_roundUp (n multiple : Nat) : multiple ∣ roundUp n multiple :=
  Nat.dvd_mul_left _ _

/-- A number is rounded up no further than to a multiple above it. -/
theorem roundUp_le {n multiple limit : Nat} (hpos : 0 < multiple) (hdvd : multiple ∣ limit)
    (h : n ≤ limit) : roundUp n multiple ≤ limit := by
  obtain ⟨k, rfl⟩ := hdvd
  have hquotient : (n + multiple - 1) / multiple < k + 1 := by
    rw [Nat.div_lt_iff_lt_mul hpos, Nat.add_mul, Nat.one_mul, Nat.mul_comm k]
    omega
  unfold roundUp
  rw [Nat.mul_comm]
  exact Nat.mul_le_mul_left multiple (Nat.le_of_lt_succ hquotient)

theorem roundUp_of_dvd {n multiple : Nat} (hpos : 0 < multiple) (h : multiple ∣ n) :
    roundUp n multiple = n :=
  Nat.le_antisymm (roundUp_le hpos h (Nat.le_refl n)) (le_roundUp hpos)

theorem roundUp_one (n : Nat) : roundUp n 1 = n := roundUp_of_dvd Nat.one_pos (Nat.one_dvd n)

/-- A number that is no multiple is rounded up by what its remainder lacks. -/
theorem roundUp_of_not_dvd {n multiple : Nat} (hpos : 0 < multiple) (h : n % multiple ≠ 0) :
    roundUp n multiple = n + (multiple - n % multiple) := by
  have hmod := Nat.mod_lt n hpos
  have hdiv := Nat.div_add_mod n multiple
  have hnext : multiple * (n / multiple + 1) = n + (multiple - n % multiple) := by
    rw [Nat.mul_add, Nat.mul_one]
    omega
  have hquotient : (n + multiple - 1) / multiple = n / multiple + 1 :=
    Nat.div_eq_of_lt_le (by rw [Nat.mul_comm]; omega)
      (by rw [Nat.add_mul, Nat.one_mul, Nat.mul_comm]; omega)
  rw [roundUp, hquotient, Nat.mul_comm, hnext]

namespace Bytes

/-- All bytes of an array. -/
def contents (bytes : ByteArray) : List UInt8 := bytes.data.toList

theorem contents_empty : contents .empty = [] := rfl

theorem contents_length (bytes : ByteArray) : (contents bytes).length = bytes.size := rfl

theorem flatMap_length {α β : Type} {f : α → List β} {count : Nat}
    (h : ∀ x, (f x).length = count) (xs : List α) : (xs.flatMap f).length = count * xs.length := by
  induction xs with
  | nil => rfl
  | cons x xs ih =>
    rw [List.flatMap_cons, List.length_append, h, ih, List.length_cons, Nat.mul_succ, Nat.add_comm]

/-! ## Growing -/

theorem contents_push (bytes : ByteArray) (b : UInt8) :
    contents (bytes.push b) = contents bytes ++ [b] := by
  simp [contents, ByteArray.data_push]

theorem contents_appendList (bytes : ByteArray) (more : List UInt8) :
    contents (appendList bytes more) = contents bytes ++ more := by
  unfold appendList
  induction more generalizing bytes with
  | nil => simp
  | cons b more ih =>
    rw [List.foldl_cons, ih, contents_push, List.append_assoc, List.singleton_append]

theorem contents_appendZeros (bytes : ByteArray) (count : Nat) :
    contents (appendZeros bytes count) = contents bytes ++ List.replicate count 0 := by
  unfold appendZeros
  induction count with
  | zero => simp
  | succ count ih =>
    rw [Nat.fold_succ, contents_push, ih, List.append_assoc, ← List.replicate_succ']

theorem contents_padTo (bytes : ByteArray) (size : Nat) :
    contents (padTo bytes size) = contents bytes ++ List.replicate (size - bytes.size) 0 :=
  contents_appendZeros bytes _

theorem size_appendList (bytes : ByteArray) (more : List UInt8) :
    (appendList bytes more).size = bytes.size + more.length := by
  rw [← contents_length, contents_appendList, List.length_append, contents_length]

theorem size_padTo (bytes : ByteArray) (size : Nat) :
    (padTo bytes size).size = max bytes.size size := by
  rw [← contents_length, contents_padTo, List.length_append, contents_length, List.length_replicate]
  omega

/-! ## Overwriting -/

theorem contents_put (bytes : ByteArray) (i : Nat) (b : UInt8) :
    contents (put bytes i b) = (contents bytes).set i b := by
  unfold put
  split
  · simp [contents, ByteArray.set]
  · next h =>
    rw [List.set_eq_of_length_le]
    rw [contents_length]
    omega

theorem size_overwrite (bytes : ByteArray) (start : Nat) (more : List UInt8) :
    (overwrite bytes start more).size = bytes.size := by
  induction more generalizing bytes start with
  | nil => rfl
  | cons b more ih =>
    rw [overwrite, ih, ← contents_length, contents_put, List.length_set, contents_length]

/-- Overwriting a stretch within an array changes the bytes of the stretch and no others. -/
theorem getElem?_overwrite {bytes : ByteArray} {start : Nat} {more : List UInt8}
    (h : start + more.length ≤ bytes.size) (i : Nat) :
    (contents (overwrite bytes start more))[i]? =
      if start ≤ i ∧ i < start + more.length then more[i - start]? else (contents bytes)[i]? := by
  induction more generalizing bytes start with
  | nil => rw [overwrite, if_neg (by simp only [List.length_nil]; omega)]
  | cons b more ih =>
    rw [List.length_cons] at h ⊢
    have hsize : (put bytes start b).size = bytes.size := by
      rw [← contents_length, contents_put, List.length_set, contents_length]
    rw [overwrite, ih (by omega), contents_put, List.getElem?_set, contents_length]
    rcases Nat.lt_trichotomy i start with hlt | rfl | hlt
    · rw [if_neg (by omega), if_neg (by omega), if_neg (by omega)]
    · rw [if_neg (by omega), if_pos rfl, if_pos (by omega), if_pos (by omega), Nat.sub_self]
      rfl
    · have hsub : i - start = i - (start + 1) + 1 := by omega
      rw [if_neg (by omega : ¬start = i), hsub, List.getElem?_cons_succ]
      by_cases hin : i < start + 1 + more.length
      · rw [if_pos (by omega), if_pos (by omega)]
      · rw [if_neg (by omega), if_neg (by omega)]

/-! ## Reading -/

theorem get_eq (bytes : ByteArray) (i : Nat) : get bytes i = (contents bytes)[i]?.getD 0 := by
  unfold get
  split
  · next h =>
    rw [List.getElem?_eq_getElem (by rwa [contents_length])]
    rfl
  · next h =>
    rw [List.getElem?_eq_none (by rw [contents_length]; omega)]
    rfl

/-- A stretch of an array is what stands between the bytes before it and the bytes behind it. -/
theorem slice_of_contents {bytes : ByteArray} {before stretch behind : List UInt8}
    (h : contents bytes = before ++ stretch ++ behind) :
    slice bytes before.length stretch.length = stretch := by
  apply List.ext_getElem
  · simp [slice]
  · intro i h₁ h₂
    have hget : (contents bytes)[before.length + i]? = some stretch[i] := by
      rw [h, List.getElem?_append_left (by simp; omega), List.getElem?_append_right (by omega)]
      simp
    simp [slice, get_eq, hget]

end Bytes

namespace Word

/-! ## Words and their bytes -/

theorem bytes_length (w : Word) : (Word.bytes w).length = 4 := rfl

theorem ofBytes_bytes (w : Word) : Word.ofBytes (Word.bytes w) = w := by
  have hw := w.toNat_lt
  apply UInt32.toNat_inj.mp
  simp only [Word.ofBytes, Word.bigEndian, Word.bytes, List.foldl_cons, List.foldl_nil,
    UInt8.toNat_ofNat', UInt32.toNat_ofNat']
  omega

theorem flatMap_bytes_length (words : List Word) :
    (words.flatMap Word.bytes).length = 4 * words.length :=
  Bytes.flatMap_length bytes_length words

/-- The bytes of a list of words, split at one of them. -/
theorem flatMap_bytes_split {words : List Word} {i : Nat} (h : i < words.length) :
    words.flatMap Word.bytes = (words.take i).flatMap Word.bytes ++ Word.bytes words[i] ++
      (words.drop (i + 1)).flatMap Word.bytes := by
  rw [← List.flatMap_singleton Word.bytes words[i], ← List.flatMap_append, ← List.flatMap_append,
    List.append_assoc, List.singleton_append, ← List.drop_eq_getElem_cons h, List.take_append_drop]

/-- Reading a word of an array that is made of words. -/
theorem ofBytes_slice {bytes : ByteArray} {words : List Word} {i : Nat}
    (h : Bytes.contents bytes = words.flatMap Word.bytes) (hi : i < words.length) :
    Word.ofBytes (Bytes.slice bytes (4 * i) 4) = words[i] := by
  have hbefore : ((words.take i).flatMap Word.bytes).length = 4 * i := by
    rw [flatMap_bytes_length, List.length_take]
    omega
  rw [← hbefore, ← bytes_length words[i],
    Bytes.slice_of_contents (h.trans (flatMap_bytes_split hi)), ofBytes_bytes]

end Word

end MipsLab
