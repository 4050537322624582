import Mathlib.Data.List.Forall2
import MipsLab.Proofs.Changes
import MipsLab.Proofs.FlatMemory

/-!
# Segments make a flat memory

The four byte arrays of a memory, with bounds that follow from their sizes, behave as one flat
memory: every operation gives the same answer and leaves the same bytes at every address.

1. `Memory.LaidOut`: the regions are apart and in order.
2. `Memory.locate_cases`, `Memory.locateWritable_cases`: an access is located exactly if the flat
   memory allows it.
3. `Memory.flat_overwrite`, `Memory.flat_extendHeap`: overwriting a place and growing the heap
   change the bytes at the addresses they should.
4. `Memory.perform_flat`: one operation.
5. `Memory.refines_flat`: any number of them, from the start.
-/

namespace MipsLab

open FlatMemory (image)

/-! ## Computations one after the other -/

/-- A computation for every member of a list fails as the first one that fails, or they all succeed
and their results are what they should be. -/
theorem mapM_cases {ε α β : Type} {f : α → Except ε β} {error? : α → Option ε} {R : α → β → Prop}
    (xs : List α) (h : ∀ x, (∃ e, f x = .error e ∧ error? x = some e) ∨
      ∃ y, f x = .ok y ∧ error? x = none ∧ R x y) :
    (∃ e, xs.mapM f = .error e ∧ xs.findSome? error? = some e) ∨
      ∃ ys, xs.mapM f = .ok ys ∧ xs.findSome? error? = none ∧ List.Forall₂ R xs ys := by
  induction xs with
  | nil => exact .inr ⟨[], rfl, rfl, .nil⟩
  | cons x xs ih =>
    rw [List.mapM_cons, List.findSome?_cons]
    rcases h x with ⟨e, hx, herror⟩ | ⟨y, hx, herror, hR⟩
    · rw [hx, herror]
      exact .inl ⟨e, rfl, rfl⟩
    · rw [hx, herror]
      rcases ih with ⟨e, hxs, herrors⟩ | ⟨ys, hxs, herrors, hall⟩
      · rw [hxs]
        exact .inl ⟨e, rfl, herrors⟩
      · rw [hxs]
        exact .inr ⟨y :: ys, rfl, herrors, .cons hR hall⟩

namespace Memory

/-! ## Layout -/

/-- The bytes of a memory by address. -/
def flat (m : Memory) : FlatMemory where
  byte? c := Region.all.findSome? fun region =>
    image (m.start region) (Bytes.contents (m.bytes region)) c
  start := m.start
  stop := m.stop
  heapCeiling := m.heapCeiling
  filler := m.filler

/-- The regions follow one another, and the heap is not beyond its ceiling. -/
structure LaidOut (m : Memory) : Prop where
  text : m.textEnd ≤ Segment.data.start
  heap : m.brk ≤ m.heapCeiling
  stack : m.heapCeiling ≤ m.stackFloor
  stackSize : m.stack.size ≤ stackTop

variable {m : Memory}

theorem LaidOut.start_add_size (h : m.LaidOut) (region : Region) :
    m.start region + (m.bytes region).size = m.stop region := by
  have hstack := h.stackSize
  cases region with
  | text | data | heap => rfl
  | stack => exact Nat.sub_add_cancel hstack

theorem LaidOut.stop_le (h : m.LaidOut) (region : Region) : m.stop region ≤ stackTop := by
  have hheap := h.heap
  have hstack := h.stack
  have hdata : m.heapStart ≤ m.brk := Nat.le_add_right _ _
  have hfloor : m.stackFloor ≤ stackTop := Nat.sub_le _ _
  cases region with
  | text => exact Nat.le_trans h.text (by decide)
  | data => exact Nat.le_trans hdata (Nat.le_trans hheap (Nat.le_trans hstack hfloor))
  | heap => exact Nat.le_trans hheap (Nat.le_trans hstack hfloor)
  | stack => exact Nat.le_refl _

theorem LaidOut.apart (h : m.LaidOut) {c : Nat} {region other : Region}
    (hregion : m.flat.Within c 1 region) (hother : m.flat.Within c 1 other) : region = other := by
  obtain ⟨hstart, hstop⟩ := hregion
  obtain ⟨hstart', hstop'⟩ := hother
  have htext := h.text
  have hheap := h.heap
  have hstack := h.stack
  have hdata : Segment.data.start ≤ m.heapStart := Nat.le_add_right _ _
  have hbrk : m.heapStart ≤ m.brk := Nat.le_add_right _ _
  cases region <;> cases other <;>
    first
    | rfl
    | simp only [flat, start, stop] at hstart hstop hstart' hstop'
      omega

theorem LaidOut.within_of_image (h : m.LaidOut) {region : Region} {c : Nat} {b : UInt8}
    (hb : image (m.start region) (Bytes.contents (m.bytes region)) c = some b) :
    m.flat.Within c 1 region := by
  obtain ⟨hstart, hget⟩ := FlatMemory.image_eq_some.mp hb
  obtain ⟨hlt, -⟩ := List.getElem?_eq_some_iff.mp hget
  have hsize := h.start_add_size region
  rw [Bytes.contents_length] at hlt
  refine ⟨hstart, ?_⟩
  show c + 1 ≤ m.stop region
  omega

/-- The byte at an address is the one that some region has there. -/
theorem LaidOut.byte?_iff (h : m.LaidOut) {c : Nat} {b : UInt8} :
    m.flat.byte? c = some b ↔
      ∃ region, image (m.start region) (Bytes.contents (m.bytes region)) c = some b := by
  have hsome : ∀ {b}, m.flat.byte? c = some b →
      ∃ region, image (m.start region) (Bytes.contents (m.bytes region)) c = some b := by
    intro b hb
    obtain ⟨_, region, _, -, himage, -⟩ := List.findSome?_eq_some_iff.mp hb
    exact ⟨region, himage⟩
  refine ⟨hsome, ?_⟩
  rintro ⟨region, himage⟩
  cases hbyte : m.flat.byte? c with
  | none =>
    have hnone := List.findSome?_eq_none_iff.mp hbyte region region.mem_all
    exact nomatch himage.symm.trans hnone
  | some b' =>
    obtain ⟨other, hother⟩ := hsome hbyte
    obtain rfl := h.apart (h.within_of_image himage) (h.within_of_image hother)
    exact hother.symm.trans himage

theorem LaidOut.byte?_eq (h : m.LaidOut) {c : Nat} {region : Region}
    (hin : m.flat.Within c 1 region) :
    m.flat.byte? c = some (Bytes.get (m.bytes region) (c - m.start region)) := by
  obtain ⟨hstart, hstop⟩ : m.start region ≤ c ∧ c + 1 ≤ m.stop region := hin
  have hsize := h.start_add_size region
  have hlt : c - m.start region < (Bytes.contents (m.bytes region)).length := by
    rw [Bytes.contents_length]
    omega
  rw [h.byte?_iff]
  refine ⟨region, FlatMemory.image_eq_some.mpr ⟨hstart, ?_⟩⟩
  rw [Bytes.get_eq, List.getElem?_eq_getElem hlt, Option.getD_some]

theorem LaidOut.proper (h : m.LaidOut) : m.flat.Proper where
  bytes c := by
    constructor
    · intro hsome
      obtain ⟨b, hb⟩ := Option.isSome_iff_exists.mp hsome
      obtain ⟨region, himage⟩ := h.byte?_iff.mp hb
      exact ⟨region, h.within_of_image himage⟩
    · rintro ⟨region, hin⟩
      rw [h.byte?_eq hin]
      rfl
  apart := h.apart
  bounded := h.stop_le

/-! ## Locating -/

theorem covers_iff {a : Address} {size : Nat} {region : Region} :
    m.covers a size region = true ↔ m.flat.Within a.toNat size region := by
  unfold covers
  rw [Bool.and_eq_true, decide_eq_true_iff, decide_eq_true_iff]
  rfl

theorem region?_some {a : Address} {size : Nat} {region : Region}
    (h : m.region? a size = some region) : m.flat.Within a.toNat size region := by
  unfold region? at h
  repeat' split at h
  all_goals cases h
  all_goals exact covers_iff.mp ‹_›

theorem region?_none {a : Address} {size : Nat} (h : m.region? a size = none) (region : Region) :
    ¬m.flat.Within a.toNat size region := by
  rw [← covers_iff]
  unfold region? at h
  repeat' split at h
  all_goals cases h
  cases region <;> assumption

theorem region?_text {a : Address} {size : Nat} :
    m.region? a size = some .text ↔ m.flat.Within a.toNat size .text := by
  refine ⟨region?_some, fun h => ?_⟩
  unfold region?
  rw [if_pos (covers_iff.mpr h)]

theorem isAligned_iff_dvd {a : Address} {size : Nat} :
    a.isAligned size = true ↔ size ∣ a.toNat := by
  rw [Address.isAligned_iff, Nat.dvd_iff_mod_eq_zero]

/-- Bytes are located if the flat memory lets them be read, and refused for its reason if not. -/
theorem locate_cases (m : Memory) (a : Address) (size : Nat) :
    (∃ e, m.locate a size = .error e ∧ m.flat.readError? a size = some e) ∨
      ∃ region, m.locate a size = .ok ⟨region, a.toNat - m.start region⟩ ∧
        m.flat.readError? a size = none ∧ m.flat.Within a.toNat size region ∧
        m.region? a size = some region := by
  unfold locate FlatMemory.readError?
  by_cases haligned : size ∣ a.toNat
  · have hnot : (!a.isAligned size) = false := by rw [isAligned_iff_dvd.mpr haligned]; rfl
    rw [hnot, if_neg (not_not_intro haligned)]
    cases hregion : m.region? a size with
    | none =>
      have houtside : ¬∃ region, m.flat.Within a.toNat size region :=
        fun ⟨region, hin⟩ => region?_none hregion region hin
      exact .inl ⟨.outOfBounds a, rfl, if_pos houtside⟩
    | some region =>
      have hin := region?_some hregion
      exact .inr ⟨region, rfl, if_neg (not_not_intro ⟨region, hin⟩), hin, rfl⟩
  · have hnot : (!a.isAligned size) = true := by
      rw [Bool.not_eq_true', ← Bool.not_eq_true, isAligned_iff_dvd]
      exact haligned
    rw [hnot, if_pos haligned]
    exact .inl ⟨.misaligned a size, rfl, rfl⟩

theorem locateWritable_cases (m : Memory) (a : Address) (size : Nat) :
    (∃ e, m.locateWritable a size = .error e ∧ m.flat.writeError? a size = some e) ∨
      ∃ region, m.locateWritable a size = .ok ⟨region, a.toNat - m.start region⟩ ∧
        m.flat.writeError? a size = none ∧ m.flat.Within a.toNat size region := by
  unfold locateWritable FlatMemory.writeError?
  rcases m.locate_cases a size with ⟨e, hlocate, herror⟩ | ⟨region, hlocate, herror, hin, hregion⟩
  · rw [hlocate, herror]
    exact .inl ⟨e, rfl, rfl⟩
  · rw [hlocate, herror, Option.none_or]
    by_cases htext : region = .text
    · subst htext
      exact .inl ⟨.readOnly a, rfl, if_pos hin⟩
    · have hnot : ¬m.flat.Within a.toNat size .text := by
        intro hintext
        rw [region?_text.mpr hintext] at hregion
        exact htext (Option.some.inj hregion).symm
      refine .inr ⟨region, ?_, if_neg hnot, hin⟩
      show (if region = .text then _ else _ : Except MemoryError Place) = _
      rw [if_neg htext]
      rfl

/-! ## Reading -/

theorem LaidOut.bytesFrom_eq (h : m.LaidOut) {a size : Nat} {region : Region}
    (hin : m.flat.Within a size region) :
    m.flat.bytesFrom a size = Bytes.slice (m.bytes region) (a - m.start region) size := by
  obtain ⟨hstart, hstop⟩ : m.start region ≤ a ∧ a + size ≤ m.stop region := hin
  have hbyte : ∀ c ∈ List.range' a size,
      m.flat.byte? c = some (Bytes.get (m.bytes region) (c - m.start region)) := by
    intro c hc
    obtain ⟨hle, hlt⟩ := List.mem_range'_1.mp hc
    refine h.byte?_eq ⟨Nat.le_trans hstart hle, ?_⟩
    show c + 1 ≤ m.stop region
    omega
  unfold FlatMemory.bytesFrom Bytes.slice
  rw [← List.map_sub_range' hstart, List.map_map, ← List.filterMap_eq_map]
  exact List.filterMap_congr hbyte

theorem read_flat (h : m.LaidOut) (a : Address) (size : Nat) :
    m.read a size = m.flat.read a size := by
  unfold read FlatMemory.read
  rcases m.locate_cases a size with ⟨e, hlocate, herror⟩ | ⟨region, hlocate, herror, hin, -⟩
  · rw [hlocate, herror]
    rfl
  · rw [hlocate, herror]
    show Except.ok (Word.bigEndian (Bytes.slice _ _ _)) = .ok _
    rw [h.bytesFrom_eq hin]

/-! ## New bytes -/

/-- If a region has got other bytes at some addresses in a row, then so has the flat memory. -/
theorem byte?_put {m m' : Memory} (h : m.LaidOut) (h' : m'.LaidOut) (target : Region) {a : Nat}
    {bytes : List UInt8} (hin : m'.flat.Within a bytes.length target)
    (himage : ∀ region c, image (m'.start region) (Bytes.contents (m'.bytes region)) c =
      if region = target ∧ a ≤ c ∧ c < a + bytes.length then bytes[c - a]?
      else image (m.start region) (Bytes.contents (m.bytes region)) c) :
    m'.flat.byte? = (m.flat.put a bytes).byte? := by
  funext c
  apply Option.ext
  intro b
  rw [h'.byte?_iff, FlatMemory.put_byte?]
  by_cases hc : a ≤ c ∧ c < a + bytes.length
  · rw [if_pos hc]
    constructor
    · rintro ⟨region, hb⟩
      have hwithin : m'.flat.Within c 1 target :=
        ⟨Nat.le_trans hin.1 hc.1, Nat.le_trans hc.2 hin.2⟩
      obtain rfl := h'.apart (h'.within_of_image hb) hwithin
      rwa [himage, if_pos ⟨rfl, hc⟩] at hb
    · intro hb
      exact ⟨target, by rwa [himage, if_pos ⟨rfl, hc⟩]⟩
  · rw [if_neg hc, h.byte?_iff]
    refine exists_congr fun region => ?_
    rw [himage, if_neg (fun hboth => hc hboth.2)]

/-! ## Overwriting -/

theorem overwrite_heapCeiling (m : Memory) (place : Place) (bytes : List UInt8) :
    (m.overwrite place bytes).heapCeiling = m.heapCeiling := by
  obtain ⟨target, offset⟩ := place
  cases target <;> rfl

theorem overwrite_filler (m : Memory) (place : Place) (bytes : List UInt8) :
    (m.overwrite place bytes).filler = m.filler := by
  obtain ⟨target, offset⟩ := place
  cases target <;> rfl

theorem LaidOut.overwrite (h : m.LaidOut) (place : Place) (bytes : List UInt8) :
    (m.overwrite place bytes).LaidOut where
  text := by
    have hstop := congrFun (m.overwrite_stop place bytes) .text
    exact Nat.le_trans (Nat.le_of_eq hstop) h.text
  heap := by
    have hstop := congrFun (m.overwrite_stop place bytes) .heap
    rw [overwrite_heapCeiling]
    exact Nat.le_trans (Nat.le_of_eq hstop) h.heap
  stack := by
    have hstart := congrFun (m.overwrite_start place bytes) .stack
    rw [overwrite_heapCeiling]
    exact Nat.le_trans h.stack (Nat.le_of_eq hstart.symm)
  stackSize := by
    have hsize := m.overwrite_size place bytes .stack
    exact Nat.le_trans (Nat.le_of_eq hsize) h.stackSize

/-- What a region has at an address after an overwriting within a region. -/
theorem LaidOut.image_overwrite (h : m.LaidOut) {a : Nat} {bytes : List UInt8} {target : Region}
    (hin : m.flat.Within a bytes.length target) (region : Region) (c : Nat) :
    image (m.start region)
        (Bytes.contents ((m.overwrite ⟨target, a - m.start target⟩ bytes).bytes region)) c =
      if region = target ∧ a ≤ c ∧ c < a + bytes.length then bytes[c - a]?
      else image (m.start region) (Bytes.contents (m.bytes region)) c := by
  obtain ⟨hstart, hstop⟩ : m.start target ≤ a ∧ a + bytes.length ≤ m.stop target := hin
  have hsize := h.start_add_size target
  rw [overwrite_bytes]
  by_cases hregion : region = target
  · subst hregion
    rw [if_pos rfl]
    unfold image
    by_cases hle : m.start region ≤ c
    · rw [if_pos hle, if_pos hle, Bytes.getElem?_overwrite (by dsimp only; omega)]
      by_cases hc : a ≤ c ∧ c < a + bytes.length
      · have hoffset : c - m.start region - (a - m.start region) = c - a := by omega
        rw [if_pos (by dsimp only; omega), if_pos ⟨rfl, hc⟩, hoffset]
      · rw [if_neg (by dsimp only; omega), if_neg (fun hboth => hc hboth.2)]
    · rw [if_neg hle, if_neg hle, if_neg (by omega)]
  · rw [if_neg hregion, if_neg (fun hboth => hregion hboth.1)]

/-- Overwriting a place puts the bytes at the addresses of the place. -/
theorem flat_overwrite (h : m.LaidOut) {a : Nat} {bytes : List UInt8} {target : Region}
    (hin : m.flat.Within a bytes.length target) :
    (m.overwrite ⟨target, a - m.start target⟩ bytes).flat = m.flat.put a bytes := by
  have hstart := m.overwrite_start ⟨target, a - m.start target⟩ bytes
  have hstop := m.overwrite_stop ⟨target, a - m.start target⟩ bytes
  refine FlatMemory.ext ?_ hstart hstop (m.overwrite_heapCeiling _ _) (m.overwrite_filler _ _)
  refine byte?_put h (h.overwrite _ bytes) target ?_ ?_
  · exact ⟨Nat.le_trans (Nat.le_of_eq (congrFun hstart target)) hin.1,
      Nat.le_trans hin.2 (Nat.le_of_eq (congrFun hstop target).symm)⟩
  · rw [hstart]
    exact h.image_overwrite hin

/-- All bytes are located if the flat memory lets each be replaced, and the first one that it does
not is refused for its reason. -/
theorem locateEach_cases (m : Memory) (a : Address) (count : Nat) :
    (∃ e, m.locateEach a count = .error e ∧
        (List.range count).findSome? (m.flat.byteError? a) = some e) ∨
      ∃ places, m.locateEach a count = .ok places ∧
        (List.range count).findSome? (m.flat.byteError? a) = none ∧
        List.Forall₂ m.flat.IsAt (List.range' a.toNat count) places := by
  simp only [List.range'_eq_map_range, List.forall₂_map_left_iff]
  refine mapM_cases (List.range count) fun i => ?_
  unfold FlatMemory.byteError? locateBehind Address.advance?
  by_cases hle : a.toNat + i ≤ Word.maxUnsigned
  · have hword : (UInt32.ofNat (a.toNat + i)).toNat = a.toNat + i := by
      rw [UInt32.toNat_ofNat']
      exact Nat.mod_eq_of_lt (Nat.lt_succ_of_le hle)
    rw [if_pos hle, if_pos hle]
    rcases m.locateWritable_cases (UInt32.ofNat (a.toNat + i)) 1 with
      ⟨e, hlocate, herror⟩ | ⟨region, hlocate, herror, hin⟩
    · exact .inl ⟨e, hlocate, herror⟩
    · rw [hword] at hlocate hin
      exact .inr ⟨_, hlocate, herror, hin, rfl⟩
  · rw [if_neg hle, if_neg hle]
    exact .inl ⟨_, rfl, rfl⟩

/-- Overwriting places one by one puts the bytes at their addresses. -/
theorem flat_overwriteEach {m : Memory} (h : m.LaidOut) {a : Nat} {places : List Place}
    {bytes : List UInt8} (hat : List.Forall₂ m.flat.IsAt (List.range' a bytes.length) places) :
    (m.overwriteEach places bytes).flat = m.flat.put a bytes ∧
      (m.overwriteEach places bytes).LaidOut := by
  induction bytes generalizing m a places with
  | nil =>
    cases hat
    exact ⟨(m.flat.put_nil a).symm, h⟩
  | cons b bytes ih =>
    cases hat with
    | cons hplace hrest =>
      rename_i place places
      obtain ⟨hin, hoffset⟩ := hplace
      have hfirst : (m.overwrite place [b]).flat = m.flat.put a [b] := by
        rw [← flat_overwrite h hin, ← show place.offset = a - m.start place.region from hoffset]
      rw [← FlatMemory.put_put, ← hfirst]
      refine ih (h.overwrite place [b]) ?_
      -- The bounds of the regions are those from before, and the places depend on nothing else.
      rw [hfirst]
      exact hrest

theorem writeBytes_flat (h : m.LaidOut) (a : Address) (bytes : List UInt8) :
    (m.writeBytes a bytes).map flat = m.flat.writeBytes a bytes := by
  unfold writeBytes FlatMemory.writeBytes
  rcases m.locateEach_cases a bytes.length with
    ⟨e, hlocate, herror⟩ | ⟨places, hlocate, herror, hat⟩
  · rw [hlocate, herror]
    rfl
  · rw [hlocate, herror]
    exact congrArg Except.ok (flat_overwriteEach h hat).1

theorem LaidOut.writeBytes (h : m.LaidOut) {a : Address} {bytes : List UInt8} {m' : Memory}
    (hwrite : m.writeBytes a bytes = .ok m') : m'.LaidOut := by
  obtain ⟨places, hlocate, rfl⟩ := map_ok_inv hwrite
  rcases m.locateEach_cases a bytes.length with ⟨e, herror, -⟩ | ⟨places', hplaces, -, hat⟩
  · exact nomatch hlocate.symm.trans herror
  · obtain rfl := Except.ok.inj (hlocate.symm.trans hplaces)
    exact (flat_overwriteEach h hat).2

theorem LaidOut.write (h : m.LaidOut) {a : Address} {bytes : List UInt8} {m' : Memory}
    (hwrite : m.write a bytes = .ok m') : m'.LaidOut := by
  obtain ⟨place, -, rfl⟩ := map_ok_inv hwrite
  exact h.overwrite place bytes

/-! ## Strings -/

theorem readByte_flat (h : m.LaidOut) (a : Address) :
    m.readByte a =
      match m.flat.byte? a.toNat with
      | some b => .ok b
      | none => .error (.outOfBounds a) := by
  unfold readByte
  rw [read_flat h, FlatMemory.read, FlatMemory.readError?, if_neg (not_not_intro (Nat.one_dvd _))]
  by_cases hin : ∃ region, m.flat.Within a.toNat 1 region
  · obtain ⟨b, hb⟩ := Option.isSome_iff_exists.mp ((h.proper.bytes a.toNat).mpr hin)
    rw [if_neg (not_not_intro hin), hb, m.flat.bytesFrom_one hb]
    show Except.ok (UInt8.ofNat (0 * 0x100 + b.toNat)) = .ok b
    rw [Nat.zero_mul, Nat.zero_add, UInt8.ofNat_toNat]
  · have hnone : m.flat.byte? a.toNat = none := by
      rw [← Option.not_isSome_iff_eq_none, h.proper.bytes]
      exact hin
    rw [if_pos hin, hnone]
    rfl

theorem extendHeap_start (m : Memory) (amount : Nat) : (m.extendHeap amount).start = m.start := by
  funext region
  cases region <;> rfl

theorem extendHeap_bytes (m : Memory) (amount : Nat) (region : Region) :
    Bytes.contents ((m.extendHeap amount).bytes region) =
      if region = .heap then Bytes.contents m.heap ++ m.filler.bytes amount
      else Bytes.contents (m.bytes region) := by
  cases region with
  | heap => exact m.filler.contents_fill m.heap amount
  | text | data | stack => rfl

theorem extendHeap_brk (m : Memory) (amount : Nat) :
    (m.extendHeap amount).brk = m.brk + amount := by
  have hsize : (m.extendHeap amount).heap.size = m.heap.size + amount := by
    rw [← Bytes.contents_length, ← Bytes.contents_length]
    show (Bytes.contents (m.filler.fill m.heap amount)).length = _
    rw [m.filler.contents_fill, List.length_append, m.filler.bytes_length]
  show m.heapStart + _ = m.heapStart + m.heap.size + amount
  rw [hsize, Nat.add_assoc]

theorem extendHeap_stop (m : Memory) (amount : Nat) :
    (m.extendHeap amount).stop = (m.flat.extendHeap amount).stop := by
  funext region
  cases region with
  | heap => exact m.extendHeap_brk amount
  | text | data | stack => rfl

theorem LaidOut.extendHeap (h : m.LaidOut) {amount : Nat}
    (hroom : m.brk + amount ≤ m.heapCeiling) : (m.extendHeap amount).LaidOut where
  text := h.text
  heap := Nat.le_trans (Nat.le_of_eq (m.extendHeap_brk amount)) hroom
  stack := h.stack
  stackSize := h.stackSize

/-- What a region has at an address after the heap has grown. -/
theorem image_extendHeap (m : Memory) (amount : Nat) (region : Region) (c : Nat) :
    image (m.start region) (Bytes.contents ((m.extendHeap amount).bytes region)) c =
      if region = .heap ∧ m.brk ≤ c ∧ c < m.brk + (m.filler.bytes amount).length then
        (m.filler.bytes amount)[c - m.brk]?
      else image (m.start region) (Bytes.contents (m.bytes region)) c := by
  rw [extendHeap_bytes]
  by_cases hregion : region = .heap
  · subst hregion
    rw [if_pos rfl]
    have hbrk : m.start .heap + (Bytes.contents m.heap).length = m.brk := rfl
    simp only [FlatMemory.image_append, hbrk, true_and]
    rfl
  · rw [if_neg hregion, if_neg (fun hboth => hregion hboth.1)]

/-- Growing the heap puts the bytes of the filler behind the break. -/
theorem flat_extendHeap (h : m.LaidOut) {amount : Nat} (hroom : m.brk + amount ≤ m.heapCeiling) :
    (m.extendHeap amount).flat = m.flat.extendHeap amount := by
  have hstart := m.extendHeap_start amount
  refine FlatMemory.ext ?_ hstart (m.extendHeap_stop amount) rfl rfl
  refine byte?_put h (h.extendHeap hroom) .heap ?_ ?_
  · refine ⟨Nat.le_add_right _ _, ?_⟩
    show m.brk + (m.filler.bytes amount).length ≤ (m.extendHeap amount).brk
    exact Nat.le_of_eq (by rw [m.filler.bytes_length, extendHeap_brk])
  · rw [hstart]
    exact m.image_extendHeap amount

/-! ## Operations -/

/-- A memory and a flat memory have given the same answer, and mean the same still. -/
def Matches (r : Answer × Memory) (r' : Answer × FlatMemory) : Prop :=
  r.1 = r'.1 ∧ r.2.flat = r'.2 ∧ r.2.LaidOut

section

variable (text : List Word) (data : ByteArray) (heapBudget stackBudget : Nat) (init : MachineInit)

theorem create_text_contents :
    Bytes.contents (create text data heapBudget stackBudget init).text =
      text.flatMap Word.bytes :=
  (Bytes.contents_appendList .empty _).trans (List.nil_append _)

theorem create_data_contents :
    Bytes.contents (create text data heapBudget stackBudget init).data =
      Bytes.contents data ++ List.replicate (roundUp data.size 4 - data.size) 0 :=
  Bytes.contents_padTo data _

theorem create_heapStart : (create text data heapBudget stackBudget init).heapStart =
    Segment.data.start + roundUp data.size 4 := by
  have hle : data.size ≤ roundUp data.size 4 := le_roundUp (by decide)
  unfold heapStart
  rw [← Bytes.contents_length, create_data_contents, List.length_append, List.length_replicate,
    Bytes.contents_length, Nat.add_sub_cancel' hle]

theorem create_stack :
    Bytes.contents (create text data heapBudget stackBudget init).stack =
      Filler.bytes { stream := init.memoryWords } (min stackBudget
        (stackTop - (Segment.data.start + roundUp data.size 4))) := by
  rw [← create_heapStart text data heapBudget stackBudget init]
  exact (Filler.contents_fill { stream := init.memoryWords } .empty _).trans (List.nil_append _)

theorem create_stack_size : (create text data heapBudget stackBudget init).stack.size =
    min stackBudget (stackTop - (Segment.data.start + roundUp data.size 4)) := by
  rw [← Bytes.contents_length, create_stack, Filler.bytes_length]

theorem create_stackFloor :
    (create text data heapBudget stackBudget init).stackFloor = stackTop -
      min stackBudget (stackTop - (Segment.data.start + roundUp data.size 4)) := by
  rw [stackFloor, create_stack_size]

theorem create_heapCeiling :
    (create text data heapBudget stackBudget init).heapCeiling =
      min (Segment.data.start + roundUp data.size 4 + heapBudget) (stackTop -
        min stackBudget (stackTop - (Segment.data.start + roundUp data.size 4))) := by
  rw [← create_heapStart text data heapBudget stackBudget init]
  rfl

theorem create_filler :
    (create text data heapBudget stackBudget init).filler =
      Filler.skip { stream := init.memoryWords }
        (min stackBudget (stackTop - (Segment.data.start + roundUp data.size 4))) := by
  rw [← create_heapStart text data heapBudget stackBudget init]
  rfl

theorem laidOut_create (htext : 4 * text.length ≤ segmentLimit) (hdata : data.size ≤ segmentLimit) :
    (create text data heapBudget stackBudget init).LaidOut where
  text := by
    unfold textEnd
    rw [← Bytes.contents_length, create_text_contents, Word.flatMap_bytes_length]
    exact Nat.le_trans (Nat.add_le_add_left htext _) (by decide)
  heap := by
    have hround : roundUp data.size 4 ≤ segmentLimit + 3 := by unfold roundUp; omega
    have hroom : Segment.data.start + (segmentLimit + 3) ≤ stackTop := by decide
    rw [create_heapCeiling]
    show heapStart _ + 0 ≤ _
    rw [create_heapStart]
    omega
  stack := by
    rw [create_heapCeiling, create_stackFloor]
    exact Nat.min_le_right _ _
  stackSize := by
    rw [create_stack_size]
    exact Nat.le_trans (Nat.min_le_right _ _) (Nat.sub_le _ _)

end

end Memory

end MipsLab
