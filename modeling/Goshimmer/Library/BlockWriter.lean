import Mathlib.Algebra.GroupWithZero.Nat
import Mathlib.Data.List.Basic
import Mathlib.Tactic.Common

/-!
# Writing consecutive chunks into an allocated block

Serialisers allocate a block of a size computed beforehand and copy chunk after chunk to a
running offset. The writer below keeps the block, the 64-bit offset and a log of the copies,
so that memory safety is a statement about the log. `Filled` says that the chunks written so
far are exactly the start of the block; it is preserved by each copy that still fits and by a
loop of such copies, and it identifies the block once the offset has reached its end.

`Agree` compares the same copies into two fresh blocks. It needs no room: even when the offset
wraps around, what was in the blocks before no longer shows once as many bytes were written as
the blocks are long.
-/

/-- Overwrite a block from an offset on. Bytes past the end of the block are lost: they land in
memory which is not part of it. -/
def overwrite {S : Type*} (block : List S) (offset : ℕ) (chunk : List S) : List S :=
  (block.take offset ++ chunk ++ block.drop (offset + chunk.length)).take block.length

/-- A block under construction, the running offset, and the offset and size of every copy. -/
structure BlockWriter (S : Type*) where
  block : List S
  offset : UInt64
  log : List (UInt64 × ℕ)

namespace BlockWriter

variable {S B : Type*}

/-- Start at the beginning of a block. -/
def start (block : List S) : BlockWriter S := ⟨block, 0, []⟩

/-- Copy a chunk to the running offset and advance it by the size of the chunk. -/
def put (w : BlockWriter S) (chunk : List S) : BlockWriter S where
  block := overwrite w.block w.offset.toNat chunk
  offset := w.offset + UInt64.ofNat chunk.length
  log := w.log ++ [(w.offset, chunk.length)]

/-- The block starts with the given bytes, the offset stands behind them, and every copy made
so far stayed inside the block. -/
structure Filled (w : BlockWriter S) (capacity : ℕ) (done : List S) : Prop where
  block_eq : ∃ rest, w.block = done ++ rest
  block_length : w.block.length = capacity
  capacity_lt : capacity < 2 ^ 64
  offset_eq : w.offset.toNat = done.length
  inBounds : ∀ entry ∈ w.log, entry.1.toNat + entry.2 ≤ capacity

/-- A fresh block has nothing written. -/
theorem filled_start (block : List S) (h : block.length < 2 ^ 64) :
    (start block).Filled block.length [] where
  block_eq := ⟨block, rfl⟩
  block_length := rfl
  capacity_lt := h
  offset_eq := rfl
  inBounds := by simp [start]

/-- The bytes written so far fit the block. -/
theorem Filled.length_le {w : BlockWriter S} {capacity : ℕ} {done : List S}
    (h : w.Filled capacity done) : done.length ≤ capacity := by
  obtain ⟨rest, hrest⟩ := h.block_eq
  rw [← h.block_length, hrest, List.length_append]
  exact Nat.le_add_right _ _

/-- A copy which fits extends the written part by exactly its chunk. -/
theorem Filled.put {w : BlockWriter S} {capacity : ℕ} {done : List S}
    (h : w.Filled capacity done) (chunk : List S) (hfit : done.length + chunk.length ≤ capacity) :
    (w.put chunk).Filled capacity (done ++ chunk) := by
  obtain ⟨rest, hrest⟩ := h.block_eq
  have hlength : rest.length + done.length = capacity := by
    rw [← h.block_length, hrest, List.length_append, Nat.add_comm]
  have hblock : (w.put chunk).block = (done ++ chunk) ++ rest.drop chunk.length := by
    simp only [BlockWriter.put, overwrite, h.offset_eq, hrest, List.take_left, List.drop_append,
      List.length_append]
    rw [List.drop_eq_nil_of_le (by omega), List.nil_append, Nat.add_sub_cancel_left,
      List.take_of_length_le]
    simp only [List.length_append, List.length_drop]
    omega
  refine ⟨⟨_, hblock⟩, ?_, h.capacity_lt, ?_, ?_⟩
  · rw [hblock]
    simp only [List.length_append, List.length_drop]
    omega
  · have hcapacity := h.capacity_lt
    simp only [BlockWriter.put, UInt64.toNat_add, UInt64.toNat_ofNat', h.offset_eq,
      List.length_append]
    omega
  · intro entry hentry
    rcases List.mem_append.mp hentry with hold | hnew
    · exact h.inBounds entry hold
    · rw [List.mem_singleton.mp hnew, h.offset_eq]
      exact hfit

/-- A loop whose body writes the encoding of its item writes the encodings of all items. -/
theorem Filled.foldl {capacity : ℕ} (body : BlockWriter S → B → BlockWriter S)
    (encode : B → List S)
    (hbody : ∀ (w : BlockWriter S) (done : List S) (b : B), w.Filled capacity done →
      done.length + (encode b).length ≤ capacity → (body w b).Filled capacity (done ++ encode b))
    (items : List B) {w : BlockWriter S} {done : List S} (h : w.Filled capacity done)
    (hfit : done.length + (items.flatMap encode).length ≤ capacity) :
    (items.foldl body w).Filled capacity (done ++ items.flatMap encode) := by
  induction items generalizing w done with
  | nil => simpa using h
  | cons b items ih =>
    rw [List.flatMap_cons, List.length_append] at hfit
    have hstep := hbody w done b h (by omega)
    have hrest := ih hstep (by rw [List.length_append]; omega)
    rwa [List.append_assoc, ← List.flatMap_cons] at hrest

/-- Once everything is written the block consists of the written bytes alone. -/
theorem Filled.block_eq_of_length {w : BlockWriter S} {capacity : ℕ} {done : List S}
    (h : w.Filled capacity done) (hfull : done.length = capacity) : w.block = done := by
  obtain ⟨rest, hrest⟩ := h.block_eq
  have hlength := h.block_length
  rw [hrest, List.length_append] at hlength
  rw [hrest, List.length_eq_zero_iff.mp (by omega : rest.length = 0), List.append_nil]

/-- Overwriting keeps the size of a block. -/
@[simp] theorem length_overwrite (block : List S) (offset : ℕ) (chunk : List S) :
    (overwrite block offset chunk).length = block.length := by
  simp only [overwrite, List.length_take, List.length_append, List.length_drop]
  omega

/-- A chunk which fits stands behind what was before the offset. -/
theorem take_overwrite {block chunk : List S} {offset : ℕ} (h : offset + chunk.length ≤ block.length) :
    (overwrite block offset chunk).take (offset + chunk.length) = block.take offset ++ chunk := by
  have hhead : (block.take offset ++ chunk).length = offset + chunk.length := by
    rw [List.length_append, List.length_take]
    omega
  rw [overwrite, List.take_take, Nat.min_eq_left h, List.take_append_of_le_length (by omega), ← hhead,
    List.take_length]

/-- The start of a block after a chunk was written comes from what was in front of the chunk and from the
chunk. -/
theorem take_overwrite_of_le {block chunk : List S} {offset n : ℕ} (hn : n ≤ offset + chunk.length)
    (hblock : n ≤ block.length) (hoffset : offset ≤ block.length) :
    (overwrite block offset chunk).take n = (block.take offset ++ chunk).take n := by
  have hhead : (block.take offset ++ chunk).length = offset + chunk.length := by
    rw [List.length_append, List.length_take, Nat.min_eq_left hoffset]
  rw [overwrite, List.take_take, Nat.min_eq_left hblock, List.take_append_of_le_length (by rw [hhead]; exact hn)]

/-- Two chunks which fit stand behind each other. -/
theorem take_overwrite_overwrite {block chunk next : List S} {offset : ℕ}
    (h : offset + chunk.length + next.length ≤ block.length) :
    (overwrite (overwrite block offset chunk) (offset + chunk.length) next).take
        (offset + chunk.length + next.length) =
      block.take offset ++ chunk ++ next := by
  rw [take_overwrite (by rw [length_overwrite]; exact h), take_overwrite (by omega)]

/-- Two writers into blocks of one size stand at the same place after the same amount of writing,
and their blocks agree wherever something was written. The offset may have wrapped around. -/
structure Agree (w w' : BlockWriter S) (capacity written : ℕ) : Prop where
  block_length : w.block.length = capacity
  block_length' : w'.block.length = capacity
  capacity_lt : capacity < 2 ^ 64
  offset_eq : w.offset = UInt64.ofNat written
  offset_eq' : w'.offset = UInt64.ofNat written
  block_take : w.block.take written = w'.block.take written

/-- Two fresh blocks of one size. -/
theorem agree_start {block block' : List S} {capacity : ℕ} (h : block.length = capacity)
    (h' : block'.length = capacity) (hlt : capacity < 2 ^ 64) :
    (start block).Agree (start block') capacity 0 :=
  ⟨h, h', hlt, rfl, rfl, by rw [List.take_zero, List.take_zero]⟩

/-- Once as much was written as the blocks are long, they are equal. -/
theorem Agree.block_eq {w w' : BlockWriter S} {capacity written : ℕ} (h : w.Agree w' capacity written)
    (hfull : capacity ≤ written) : w.block = w'.block := by
  have htake := h.block_take
  rwa [List.take_of_length_le (by rw [h.block_length]; exact hfull),
    List.take_of_length_le (by rw [h.block_length']; exact hfull)] at htake

/-- Copying the same chunk keeps two writers in agreement. -/
theorem Agree.put {w w' : BlockWriter S} {capacity written : ℕ} (h : w.Agree w' capacity written)
    (chunk : List S) : (w.put chunk).Agree (w'.put chunk) capacity (written + chunk.length) := by
  refine ⟨?_, ?_, h.capacity_lt, ?_, ?_, ?_⟩
  · rw [BlockWriter.put, length_overwrite, h.block_length]
  · rw [BlockWriter.put, length_overwrite, h.block_length']
  · rw [BlockWriter.put, h.offset_eq, UInt64.ofNat_add]
  · rw [BlockWriter.put, h.offset_eq', UInt64.ofNat_add]
  · by_cases hfull : capacity ≤ written
    · -- everything was written before, so the two blocks are the same already
      simp only [BlockWriter.put, h.offset_eq, h.offset_eq', h.block_eq hfull]
    · have hlt := h.capacity_lt
      have hoffset : (UInt64.ofNat written).toNat = written :=
        UInt64.toNat_ofNat_of_lt' (by simp only [UInt64.size]; omega)
      have hput : ∀ block : List S, block.length = capacity →
          (overwrite block written chunk).take (written + chunk.length) =
            (block.take written ++ chunk).take capacity := by
        intro block hblock
        have hhead : (block.take written ++ chunk).length = written + chunk.length := by
          rw [List.length_append, List.length_take]
          omega
        rw [overwrite, List.take_take, Nat.min_comm, ← List.take_take,
          List.take_append_of_le_length (by omega), ← hhead, List.take_length, hblock]
      simp only [BlockWriter.put, h.offset_eq, h.offset_eq', hoffset]
      rw [hput _ h.block_length, hput _ h.block_length', h.block_take]

/-- A loop whose body keeps writers in agreement keeps them in agreement. -/
theorem Agree.foldl {capacity : ℕ} (body : BlockWriter S → B → BlockWriter S) (size : B → ℕ)
    (hbody : ∀ (w w' : BlockWriter S) (written : ℕ) (b : B), w.Agree w' capacity written →
      (body w b).Agree (body w' b) capacity (written + size b))
    (items : List B) {w w' : BlockWriter S} {written : ℕ} (h : w.Agree w' capacity written) :
    (items.foldl body w).Agree (items.foldl body w') capacity (written + (items.map size).sum) := by
  induction items generalizing w w' written with
  | nil => simpa using h
  | cons b items ih =>
    have hrest := ih (hbody w w' written b h)
    rwa [Nat.add_assoc, ← List.sum_cons, ← List.map_cons] at hrest

end BlockWriter
