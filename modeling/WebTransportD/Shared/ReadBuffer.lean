import WebTransportD.Shared.Memory

set_option autoImplicit false

namespace WebTransportD.ReadBuffer

open Memory

variable {B : Type}

-- A block filled up to `used`; `reach` is where the furthest access so far ended.
structure Buffer (B : Type) where
  block : Nat -> B
  used : Nat
  reach : Nat

def Buffer.content (b : Buffer B) : List B :=
  slice b.block 0 b.used

def Buffer.touch (b : Buffer B) (stop : Nat) : Buffer B :=
  { b with reach := max b.reach stop }

def Buffer.receive (b : Buffer B) (chunk : List B) : Buffer B :=
  { b with block := copy b.block b.used chunk, used := b.used + chunk.length }.touch
    (b.used + chunk.length)

-- memmove of `len` cells from `start` to the front, as if through a copy of them.
def Buffer.moveDown (b : Buffer B) (start len : Nat) : Buffer B :=
  { b with block := copy b.block 0 (slice b.block start len), used := len }.touch (start + len)

@[simp] theorem length_slice (m : Nat -> B) (start len : Nat) :
    (slice m start len).length = len := by
  simp [slice]

@[simp] theorem length_content (b : Buffer B) : b.content.length = b.used :=
  length_slice ..

theorem slice_content (b : Buffer B) (start len : Nat) (inside : start + len ≤ b.used) :
    slice b.block start len = (b.content.drop start).take len := by
  obtain ⟨rest, used⟩ := Nat.exists_eq_add_of_le inside
  have whole : b.content = slice b.block 0 start ++ (slice b.block start len ++
      slice b.block (start + len) rest) := by
    rw [Buffer.content, used, Nat.add_assoc, slice_split, slice_split, Nat.zero_add]
  rw [whole, List.drop_left' (length_slice ..), List.take_left' (length_slice ..)]

@[simp] theorem content_touch (b : Buffer B) (stop : Nat) : (b.touch stop).content = b.content :=
  rfl

theorem content_receive (b : Buffer B) (chunk : List B) :
    (b.receive chunk).content = b.content ++ chunk := by
  have kept : slice (copy b.block b.used chunk) 0 b.used = slice b.block 0 b.used := by
    refine List.map_congr_left fun i member => ?_
    exact copy_below _ _ _ _ (by simpa using List.mem_range.mp member)
  rw [Buffer.receive, content_touch, Buffer.content, slice_split, kept, Nat.zero_add, slice_copy]
  rfl

theorem content_moveDown (b : Buffer B) (start len : Nat) (whole : start + len = b.used) :
    (b.moveDown start len).content = b.content.drop start := by
  have moved := slice_copy b.block 0 (slice b.block start len)
  rw [length_slice] at moved
  rw [Buffer.moveDown, content_touch, Buffer.content, moved,
    slice_content b start len (Nat.le_of_eq whole), List.take_of_length_le]
  simp only [List.length_drop, length_content]
  omega

end WebTransportD.ReadBuffer
