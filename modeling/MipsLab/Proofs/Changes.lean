import Mathlib.Data.List.Forall2
import MipsLab.Memory.Change
import MipsLab.Proofs.Attempts
import MipsLab.Proofs.Bytes

/-!
# What changes of memory come to

A change works on the memory in place, in several steps that may each fail. What it comes to is said
here in one piece: places are found in the memory as it was, and either all of them are overwritten
or nothing is changed.

1. `Memory.write`, `Memory.writeBytes`: replacing bytes, in one piece.
2. `Memory.Change.write_run`, `Memory.Change.growHeap_run`: a single replacement, and growing.
3. `Memory.Change.writeBytes_run`: of the two loops over many bytes, only the first one can fail.
-/

namespace MipsLab

theorem forall₂_of_mapM {α β ε : Type} {f : α → Except ε β} {xs : List α} {ys : List β}
    (h : xs.mapM f = .ok ys) : List.Forall₂ (fun x y => f x = .ok y) xs ys := by
  induction xs generalizing ys with
  | nil =>
    obtain rfl := Except.ok.inj h
    exact .nil
  | cons x xs ih =>
    rw [List.mapM_cons] at h
    obtain ⟨first, hfirst, h⟩ := bind_ok_inv h
    obtain ⟨rest, hrest, h⟩ := bind_ok_inv h
    obtain rfl := Except.ok.inj h
    exact .cons hfirst (ih hrest)

namespace Memory

/-! ## In one piece -/

/-- The memory with other bytes from an address on. -/
def write (m : Memory) (a : Address) (bytes : List UInt8) : Except MemoryError Memory :=
  (m.locateWritable a bytes.length).map (m.overwrite · bytes)

/-- The place of the single byte some way behind an address. -/
def locateBehind (m : Memory) (a : Address) (i : Nat) : Except MemoryError Place :=
  match a.advance? i with
  | some b => m.locateWritable b 1
  | none => .error (.outOfBounds a)

/-- The places of some single bytes from an address on, which may lie in different regions. -/
def locateEach (m : Memory) (a : Address) (count : Nat) : Except MemoryError (List Place) :=
  (List.range count).mapM (m.locateBehind a)

def overwriteEach (m : Memory) (places : List Place) (bytes : List UInt8) : Memory :=
  (places.zip bytes).foldl (fun m (place, b) => m.overwrite place [b]) m

/-- The memory with other bytes from an address on, in whatever regions they lie. -/
def writeBytes (m : Memory) (a : Address) (bytes : List UInt8) : Except MemoryError Memory :=
  (m.locateEach a bytes.length).map (m.overwriteEach · bytes)

/-- What is handed back by a change that replaces all that it should, or else nothing. -/
def settled (m : Memory) : Except MemoryError Memory → EStateM.Result MemoryError Memory Unit
  | .ok changed => .ok () changed
  | .error e => .error e m

/-! ## Overwriting -/

/-- The bounds of the regions follow from their sizes. -/
theorem bounds_congr {m m' : Memory}
    (h : ∀ region, (m'.bytes region).size = (m.bytes region).size) :
    m'.start = m.start ∧ m'.stop = m.stop := by
  have htext : m'.text.size = m.text.size := h .text
  have hdata : m'.data.size = m.data.size := h .data
  have hheap : m'.heap.size = m.heap.size := h .heap
  have hstack : m'.stack.size = m.stack.size := h .stack
  refine ⟨funext fun region => ?_, funext fun region => ?_⟩ <;> cases region <;>
    simp only [start, stop, textEnd, heapStart, brk, stackFloor, htext, hdata, hheap, hstack]

theorem overwrite_bytes (m : Memory) (place : Place) (bytes : List UInt8) (region : Region) :
    (m.overwrite place bytes).bytes region =
      if region = place.region then Bytes.overwrite (m.bytes region) place.offset bytes
      else m.bytes region := by
  obtain ⟨target, offset⟩ := place
  cases target <;> cases region <;> rfl

theorem overwrite_size (m : Memory) (place : Place) (bytes : List UInt8) (region : Region) :
    ((m.overwrite place bytes).bytes region).size = (m.bytes region).size := by
  rw [overwrite_bytes]
  split
  · exact Bytes.size_overwrite _ _ _
  · rfl

theorem overwrite_start (m : Memory) (place : Place) (bytes : List UInt8) :
    (m.overwrite place bytes).start = m.start :=
  (bounds_congr (m.overwrite_size place bytes)).1

theorem overwrite_stop (m : Memory) (place : Place) (bytes : List UInt8) :
    (m.overwrite place bytes).stop = m.stop :=
  (bounds_congr (m.overwrite_size place bytes)).2

/-- What is located does not depend on the bytes that are there. -/
theorem locateWritable_overwrite (m : Memory) (place : Place) (bytes : List UInt8) (a : Address)
    (size : Nat) :
    (m.overwrite place bytes).locateWritable a size = m.locateWritable a size := by
  unfold locateWritable locate region? covers
  rw [overwrite_start, overwrite_stop]

theorem locateEach_ok {m : Memory} {a : Address} {places : List Place} {count : Nat}
    (h : m.locateEach a count = .ok places) :
    List.Forall₂ (fun k place => m.locateWritable (UInt32.ofNat k) 1 = .ok place)
      (List.range' a.toNat count) places := by
  rw [List.range'_eq_map_range, List.forall₂_map_left_iff]
  refine (forall₂_of_mapM h).imp fun i place hlocate => ?_
  unfold locateBehind Address.advance? at hlocate
  split at hlocate
  · next b hadvance =>
    split at hadvance
    · obtain rfl := Option.some.inj hadvance
      exact hlocate
    · exact nomatch hadvance
  · exact nomatch hlocate

/-! ## In place -/

namespace Change

theorem locateWritable_run (m : Memory) (a : Address) (size : Nat) :
    (locateWritable a size).run m =
      match m.locateWritable a size with
      | .ok place => .ok place m
      | .error e => .error e m := by
  show (MonadExcept.ofExcept (m.locateWritable a size) : Change Place).run m = _
  cases m.locateWritable a size <;> rfl

theorem write_run (m : Memory) (a : Address) (bytes : List UInt8) :
    (write a bytes).run m = m.settled (m.write a bytes) := by
  have hlocate := locateWritable_run m a bytes.length
  unfold write Memory.write
  cases hplace : m.locateWritable a bytes.length with
  | error e =>
    rw [hplace] at hlocate
    exact run_bind_error hlocate
  | ok place =>
    rw [hplace] at hlocate
    exact run_bind_ok hlocate

theorem check_run (m : Memory) (a : Address) (i : Nat) :
    (check a i).run m =
      match m.locateBehind a i with
      | .ok _ => .ok () m
      | .error e => .error e m := by
  unfold check locateBehind
  cases a.advance? i with
  | none => rfl
  | some b =>
    have hlocate : locateWritable b 1 m = _ := locateWritable_run m b 1
    show EStateM.map (Function.const _ ()) (locateWritable b 1) m = _
    unfold EStateM.map
    rw [hlocate]
    dsimp only
    cases m.locateWritable b 1 <;> rfl

/-- The loop of the checks ends with the first byte that cannot be replaced, and changes nothing. -/
theorem checks_run (m : Memory) (a : Address) (indices : List Nat) :
    (indices.forM (check a)).run m =
      match indices.mapM (m.locateBehind a) with
      | .ok _ => .ok () m
      | .error e => .error e m := by
  induction indices with
  | nil => rfl
  | cons i indices ih =>
    have hcheck := check_run m a i
    rw [List.mapM_cons]
    show (check a i >>= fun _ => indices.forM (check a)).run m = _
    cases hfirst : m.locateBehind a i with
    | error e =>
      rw [hfirst] at hcheck
      exact run_bind_error hcheck
    | ok place =>
      rw [hfirst] at hcheck
      rw [run_bind_ok hcheck, ih]
      cases indices.mapM (m.locateBehind a) <;> rfl

/-- Once the places of all bytes have been found, replacing them one after the other does not
fail. -/
theorem writeEach_run {m : Memory} {c : Nat} {places : List Place} {bytes : List UInt8}
    (h : List.Forall₂ (fun k place => m.locateWritable (UInt32.ofNat k) 1 = .ok place)
      (List.range' c bytes.length) places) :
    (writeEach (UInt32.ofNat c) bytes).run m = .ok () (m.overwriteEach places bytes) := by
  induction bytes generalizing m c places with
  | nil =>
    cases h
    rfl
  | cons b bytes ih =>
    cases h with
    | @cons _ place _ places hfirst hrest =>
      have hwrite : (writeByte (UInt32.ofNat c) b).run m = .ok () (m.overwrite place [b]) := by
        rw [writeByte, write_run, Memory.write, List.length_singleton, hfirst]
        rfl
      have hnext : UInt32.ofNat c + 1 = UInt32.ofNat (c + 1) := (UInt32.ofNat_add c 1).symm
      rw [writeEach, run_bind_ok hwrite, hnext]
      refine ih ?_
      simp only [locateWritable_overwrite]
      exact hrest

/-- The second loop of a write only runs if each of its steps succeeds. -/
theorem writeEach_run_of_located {m : Memory} {a : Address} {bytes : List UInt8}
    {places : List Place} (h : m.locateEach a bytes.length = .ok places) :
    (writeEach a bytes).run m = .ok () (m.overwriteEach places bytes) := by
  have hwrite := writeEach_run (locateEach_ok h)
  rwa [UInt32.ofNat_toNat] at hwrite

theorem writeBytes_run (m : Memory) (a : Address) (bytes : List UInt8) :
    (writeBytes a bytes).run m = m.settled (m.writeBytes a bytes) := by
  have hchecks : ((List.range bytes.length).forM (check a)).run m =
      match m.locateEach a bytes.length with
      | .ok _ => .ok () m
      | .error e => .error e m := checks_run m a _
  unfold writeBytes Memory.writeBytes
  cases hplaces : m.locateEach a bytes.length with
  | error e =>
    rw [hplaces] at hchecks
    exact run_bind_error hchecks
  | ok places =>
    rw [hplaces] at hchecks
    rw [run_bind_ok hchecks]
    exact writeEach_run_of_located hplaces

theorem growHeap_run (m : Memory) (amount : Nat) :
    (growHeap amount).run m =
      match m.heapError? amount with
      | some e => .error (.heap e) m
      | none => .ok (m.brk + amount) (m.extendHeap amount) := by
  show (match m.heapError? amount with
    | some e => throw (.heap e)
    | none => do set (m.extendHeap amount); return m.brk + amount : Change Nat).run m = _
  cases m.heapError? amount <;> rfl

end Change

end Memory

end MipsLab
